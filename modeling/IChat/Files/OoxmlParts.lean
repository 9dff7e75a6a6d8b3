import IChat.Files.Ooxml
import IChat.General.Except

/-!
# The parts of an Office document

Which part a relationship names, read off the table of relationships itself.
`lookup_relationshipTargets`: what `_relationship_targets` returns says the same.
-/

namespace IChat.Files

open Xml

/-- The part that a relationship names, by its id: of several with this id the last one counts. -/
def relationshipPart (package : OoxmlArchive) (sourcePart relationsPart id : String) :
    Option String :=
  match package.readXml relationsPart with
  | .error _ => none
  | .ok relations =>
    let named := relations.root.iter.filter fun e =>
      e.name = "Relationship" && e.get ⟨"", "Id"⟩ = some id
    named.getLast?.bind fun relation =>
      (resolvePartTarget sourcePart.toList ((relation.get ⟨"", "Target"⟩).getD
        "").toList).toOption.map
        String.ofList

/-- A list of pairs that is read from its end. -/
theorem lookup_reverse_map {α κ β : Type} [BEq κ] [LawfulBEq κ] (l : List α) (key : α → κ)
    (value : α → β) (k : κ) :
    (l.map fun a => (key a, value a)).reverse.lookup k =
      ((l.filter fun a => key a == k).getLast?).map value := by
  rw [← List.map_reverse, ← List.head?_reverse, ← List.filter_reverse, List.head?_filter]
  induction l.reverse with
  | nil => rfl
  | cons a l ih =>
    rw [List.map_cons, List.lookup_cons, List.find?_cons]
    by_cases hkey : key a = k
    · rw [hkey, beq_self_eq_true]
      rfl
    · rw [beq_false_of_ne hkey, beq_false_of_ne (Ne.symm hkey)]
      exact ih

theorem relationshipTarget_eq_ok {sourcePart : String} {relation : Element} {id path : String}
    (h : relationshipTarget sourcePart relation = .ok (id, path)) :
    id ≠ "" ∧ (relation.get ⟨"", "Id"⟩).getD "" = id ∧
      (resolvePartTarget sourcePart.toList
        ((relation.get ⟨"", "Target"⟩).getD "").toList).toOption.map String.ofList = some path := by
  rw [relationshipTarget, ite_error_eq_ok_iff, not_or] at h
  obtain ⟨⟨hid, -⟩, h⟩ := h
  obtain ⟨target, htarget, h⟩ := bind_eq_ok_iff.mp h
  obtain ⟨rfl, rfl⟩ := Prod.mk.inj (Except.ok.inj h)
  exact ⟨hid, rfl, by rw [htarget]; rfl⟩

/-- **The table** of a part that is read has the parts of its relationships. -/
theorem lookup_relationshipTargets {package : OoxmlArchive} {sourcePart relationsPart : String}
    {targets : List (String × String)} (h : relationshipTargets package sourcePart = .ok targets)
    (hpart : String.ofList (dirname sourcePart.toList ++ "/_rels/".toList ++
      basename sourcePart.toList ++ ".rels".toList) = relationsPart) {id : String} (hid : id ≠ "") :
    targets.lookup id = relationshipPart package sourcePart relationsPart id := by
  rw [relationshipTargets, hpart] at h
  obtain ⟨relations, hrelations, h⟩ := bind_eq_ok_iff.mp h
  obtain ⟨pairs, hpairs, h⟩ := bind_eq_ok_iff.mp h
  cases h
  rw [relationshipPart, hrelations]
  dsimp only
  generalize hes : (relations.root.iter.filter fun e => e.name = "Relationship") = es at hpairs
  have hnamed : (relations.root.iter.filter fun e =>
      e.name = "Relationship" && e.get ⟨"", "Id"⟩ = some id) =
      es.filter fun e => (e.get ⟨"", "Id"⟩).getD "" == id := by
    rw [← hes, List.filter_filter]
    refine List.filter_congr fun e _ => ?_
    rw [Bool.and_comm]
    refine congrArg (· && _) ?_
    rw [Bool.eq_iff_iff, decide_eq_true_eq, beq_iff_eq]
    cases e.get ⟨"", "Id"⟩ with
    | none => exact ⟨nofun, fun h => absurd h.symm hid⟩
    | some => exact Option.some_inj
  -- the table has a pair for each relationship
  let value (e : Element) : String :=
    ((relationshipTarget sourcePart e).toOption.map Prod.snd).getD ""
  have hvalue : ∀ e ∈ es, ∀ pair, relationshipTarget sourcePart e = .ok pair →
      pair = ((e.get ⟨"", "Id"⟩).getD "", value e) := by
    intro e _ pair hpair
    have hsnd : value e = pair.2 := by
      change ((relationshipTarget sourcePart e).toOption.map Prod.snd).getD "" = pair.2
      rw [hpair]
      rfl
    rw [hsnd, (relationshipTarget_eq_ok hpair).2.1]
  obtain rfl := Except.eq_map_of_mapM_eq_ok hpairs hvalue
  rw [lookup_reverse_map, hnamed]
  cases hlast : (es.filter fun e => (e.get ⟨"", "Id"⟩).getD "" == id).getLast? with
  | none => rfl
  | some e =>
    have hmem : e ∈ es := List.mem_of_mem_filter (List.mem_of_getLast? hlast)
    obtain ⟨pair, -, hpair⟩ := Except.exists_ok_of_mapM_eq_ok hpairs e hmem
    rw [Option.map_some, Option.bind_some, (relationshipTarget_eq_ok hpair).2.2]
    exact congrArg (fun p : String × String => some p.2) (hvalue e hmem pair hpair).symm

end IChat.Files
