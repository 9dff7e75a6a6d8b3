import Mathlib.Data.List.Basic
import Mathlib.Data.List.Pairwise
import IChat.General.Lists

/-!
# Trees of elements

The elements of a parsed XML document. An element is an object with an identity, which programs use
as a key: the elements of a document are distinct (`Document`). Functions of the elements are
recursive in a tree and in the lists of its children; `Element.rec_children` is the induction that
goes with them.

* `iter` lists an element and all below it, in the order of the document.
* `branches` lists the same elements, each with those above it, up to the root.
* `lookup_parents`: in a document, the dictionary from a child to its parent walks up a branch.
* `flatMap_iter_filter`: what is read below certain elements, found by its branches.
* `flatMap_eq_flatMap_iff`: what is collected below the children of an element is the same exactly
  if it is the same below each of them.
-/

universe u

namespace List

variable {α β : Type*}

/-- Two halves that a test tells apart. -/
theorem append_eq_append_iff_of_forall {p : α → Prop} {l l' r r' : List α} (hl : ∀ a ∈ l, p a)
    (hl' : ∀ a ∈ l', p a) (hr : ∀ a ∈ r, ¬p a) (hr' : ∀ a ∈ r', ¬p a) :
    l ++ r = l' ++ r' ↔ l = l' ∧ r = r' := by
  refine ⟨fun h => ?_, fun ⟨hleft, hright⟩ => by rw [hleft, hright]⟩
  induction l generalizing l' with
  | nil =>
    cases l' with
    | nil => exact ⟨rfl, h⟩
    | cons a =>
      refine absurd (hl' a mem_cons_self) (hr a ?_)
      rw [nil_append] at h
      rw [h]
      exact mem_cons_self
  | cons a l ih =>
    cases l' with
    | nil =>
      refine absurd (hl a mem_cons_self) (hr' a ?_)
      rw [nil_append] at h
      rw [← h]
      exact mem_cons_self
    | cons =>
      obtain ⟨rfl, htail⟩ := cons.inj h
      obtain ⟨rfl, hrest⟩ := ih (fun b hb => hl b (mem_cons_of_mem _ hb))
        (fun b hb => hl' b (mem_cons_of_mem _ hb)) htail
      exact ⟨rfl, hrest⟩

/-- Two lists, each with a part in front and a part behind, that are put together by their parts:
the result is a list in front and one behind only if the first list has no second part, or the
second list no first one. -/
theorem interleave_eq_iff {p : α → Prop} {v d s v' d' s' : List α} (hv : ∀ a ∈ v, p a)
    (hd : ∀ a ∈ d, p a) (hs : ∀ a ∈ s, p a) (hv' : ∀ a ∈ v', ¬p a) (hd' : ∀ a ∈ d', ¬p a)
    (hs' : ∀ a ∈ s', ¬p a) :
    (v ++ v') ++ (d ++ d') = s ++ s' ↔
      (d = [] ∧ v = s ∧ v' ++ d' = s') ∨ (v ++ d = s ∧ v' = [] ∧ d' = s') := by
  classical
  constructor
  · intro h
    have hfilter : ∀ l l' : List α, (∀ a ∈ l, p a) → (∀ a ∈ l', ¬p a) →
        (l ++ l').filter p = l ∧ (l ++ l').filter (¬p ·) = l' := by
      intro l l' hl hl'
      rw [filter_append, filter_append, filter_eq_self.mpr fun a ha => decide_eq_true (hl a ha),
        filter_eq_nil_iff.mpr fun a ha => by simpa using hl' a ha,
        filter_eq_nil_iff.mpr fun a ha => by simpa using hl a ha,
        filter_eq_self.mpr fun a ha => decide_eq_true (hl' a ha), append_nil, nil_append]
      exact ⟨rfl, rfl⟩
    have hfront : v ++ d = s := by
      have hp := congrArg (filter p) h
      rwa [filter_append, (hfilter v v' hv hv').1, (hfilter d d' hd hd').1,
        (hfilter s s' hs hs').1] at hp
    have hbehind : v' ++ d' = s' := by
      have hp := congrArg (filter (¬p ·)) h
      rwa [filter_append, (hfilter v v' hv hv').2, (hfilter d d' hd hd').2,
        (hfilter s s' hs hs').2] at hp
    -- the two parts in the middle commute, so one of them is empty
    have hcommute : v' ++ d = d ++ v' := by
      rw [← hfront, ← hbehind, append_assoc, append_assoc, ← append_assoc v', ← append_assoc d] at h
      exact append_cancel_right (append_cancel_left h)
    cases d with
    | nil => exact .inl ⟨rfl, (append_nil v).symm.trans hfront, hbehind⟩
    | cons =>
      cases v' with
      | nil => exact .inr ⟨hfront, rfl, hbehind⟩
      | cons b =>
        obtain ⟨rfl, -⟩ := cons.inj hcommute
        exact absurd (hd b mem_cons_self) (hv' b mem_cons_self)
  · rintro (⟨rfl, rfl, rfl⟩ | ⟨rfl, rfl, rfl⟩)
    · rw [nil_append, append_assoc]
    · rw [append_nil, append_assoc]

/-- What is collected from pairwise disjoint regions is the same exactly if it is in each. -/
theorem flatMap_eq_flatMap_iff {l : List α} {region : α → β → Prop} {f g : α → List β}
    (hdisjoint : l.Pairwise fun a b => ∀ x, region a x → ¬region b x)
    (hf : ∀ a ∈ l, ∀ x ∈ f a, region a x) (hg : ∀ a ∈ l, ∀ x ∈ g a, region a x) :
    l.flatMap f = l.flatMap g ↔ ∀ a ∈ l, f a = g a := by
  induction l with
  | nil => exact iff_of_true rfl nofun
  | cons a l ih =>
    obtain ⟨hhead, htail⟩ := pairwise_cons.mp hdisjoint
    have hrest : ∀ h : α → List β, (∀ b ∈ a :: l, ∀ x ∈ h b, region b x) →
        ∀ x ∈ l.flatMap h, ¬region a x := by
      intro h hh x hx hregion
      obtain ⟨b, hb, hxb⟩ := mem_flatMap.mp hx
      exact hhead b hb x hregion (hh b (mem_cons_of_mem _ hb) x hxb)
    rw [flatMap_cons, flatMap_cons, forall_mem_cons,
      append_eq_append_iff_of_forall (hf a mem_cons_self) (hg a mem_cons_self) (hrest f hf)
        (hrest g hg),
      ih htail (fun b hb => hf b (mem_cons_of_mem _ hb)) fun b hb => hg b (mem_cons_of_mem _ hb)]

end List

namespace Xml

/-- A name with the namespace it is in, which may be empty. -/
structure Name where
  uri : String
  localName : String
  deriving DecidableEq

/-- An element with its text, which stands before its first child. -/
inductive Element where
  | mk (id : ℕ) (tag : Name) (attrib : List (Name × String)) (text : Option String)
    (children : List Element)

namespace Element

def id : Element → ℕ
  | mk id _ _ _ _ => id

def tag : Element → Name
  | mk _ tag _ _ _ => tag

def attrib : Element → List (Name × String)
  | mk _ _ attrib _ _ => attrib

def text : Element → Option String
  | mk _ _ _ text _ => text

def children : Element → List Element
  | mk _ _ _ _ children => children

/-- The value of an attribute. -/
def get (e : Element) (key : Name) : Option String := e.attrib.lookup key

/-- The name of the element in its namespace. -/
def name (e : Element) : String := e.tag.localName

mutual

/-- The element and all elements below it, in the order of the document. -/
def iter : Element → List Element
  | mk id tag attrib text children => mk id tag attrib text children :: iterAll children

/-- The elements of a list of trees. -/
def iterAll : List Element → List Element
  | [] => []
  | e :: es => e.iter ++ iterAll es

end

mutual

private theorem rec_children' {P : Element → Prop}
    (h : ∀ e : Element, (∀ c ∈ e.children, P c) → P e) : ∀ e : Element, P e
  | mk id tag attrib text children =>
    h (mk id tag attrib text children) (rec_children_all h children)

private theorem rec_children_all {P : Element → Prop}
    (h : ∀ e : Element, (∀ c ∈ e.children, P c) → P e) : ∀ es : List Element, ∀ c ∈ es, P c
  | [] => nofun
  | e :: es => List.forall_mem_cons.mpr ⟨rec_children' h e, rec_children_all h es⟩

end

/-- **Induction**: from the children to the element. -/
theorem rec_children {P : Element → Prop} (h : ∀ e : Element, (∀ c ∈ e.children, P c) → P e)
    (e : Element) : P e := rec_children' h e

variable {e e' c root : Element} {es above branch : List Element}

theorem iterAll_eq (es : List Element) : iterAll es = es.flatMap iter := by
  induction es with
  | nil => rfl
  | cons e es ih => rw [iterAll, List.flatMap_cons, ih]

theorem iter_eq (e : Element) : e.iter = e :: e.children.flatMap iter := by
  rw [← iterAll_eq]
  cases e
  rfl

theorem mem_iter : e' ∈ e.iter ↔ e' = e ∨ ∃ c ∈ e.children, e' ∈ c.iter := by
  rw [iter_eq, List.mem_cons, List.mem_flatMap]

theorem self_mem_iter : e ∈ e.iter := mem_iter.mpr (.inl rfl)

theorem mem_iter_of_mem (hc : c ∈ e.children) (h : e' ∈ c.iter) : e' ∈ e.iter :=
  mem_iter.mpr (.inr ⟨c, hc, h⟩)

theorem mem_iter_trans (h : e' ∈ e.iter) (h' : c ∈ e'.iter) : c ∈ e.iter := by
  induction e using rec_children with
  | h e ih =>
    rcases mem_iter.mp h with rfl | ⟨d, hd, hmem⟩
    · exact h'
    · exact mem_iter_of_mem hd (ih d hd hmem)

/-! ### Identities -/

/-- The elements of a tree are distinct. -/
def Distinct (e : Element) : Prop := (e.iter.map id).Nodup

theorem distinct_iff : e.Distinct ↔
    (∀ c ∈ e.children, c.Distinct ∧ ∀ d ∈ c.iter, d.id ≠ e.id) ∧
      e.children.Pairwise fun c d => ∀ x ∈ c.iter, ∀ y ∈ d.iter, x.id ≠ y.id := by
  have hmap : (e.children.flatMap iter).map id = e.children.flatMap fun c => c.iter.map id :=
    List.map_flatMap
  rw [Distinct, iter_eq, List.map_cons, List.nodup_cons, hmap, List.nodup_flatMap]
  have hhead : e.id ∉ e.children.flatMap (fun c => c.iter.map id) ↔
      ∀ c ∈ e.children, ∀ d ∈ c.iter, d.id ≠ e.id := by
    simp only [List.mem_flatMap, List.mem_map, not_exists, not_and]
  have hpair : (e.children.Pairwise (Function.onFun List.Disjoint fun c => c.iter.map id)) ↔
      e.children.Pairwise fun c d => ∀ x ∈ c.iter, ∀ y ∈ d.iter, x.id ≠ y.id := by
    refine List.Pairwise.iff fun c d => ?_
    show List.Disjoint _ _ ↔ _
    simp only [List.disjoint_left, List.mem_map, not_exists, not_and,
      forall_exists_index, and_imp, forall_apply_eq_imp_iff₂]
    exact ⟨fun h x hx y hy heq => h x hx y hy heq.symm, fun h x hx y hy heq => h x hx y hy heq.symm⟩
  rw [hhead, hpair]
  constructor
  · rintro ⟨hfresh, hdistinct, hdisjoint⟩
    exact ⟨fun c hc => ⟨hdistinct c hc, hfresh c hc⟩, hdisjoint⟩
  · rintro ⟨hchildren, hdisjoint⟩
    exact ⟨fun c hc => (hchildren c hc).2, fun c hc => (hchildren c hc).1, hdisjoint⟩

theorem Distinct.child (h : e.Distinct) (hc : c ∈ e.children) : c.Distinct :=
  ((distinct_iff.mp h).1 c hc).1

theorem Distinct.of_mem_iter (h : e.Distinct) (hmem : e' ∈ e.iter) : e'.Distinct := by
  induction e using rec_children with
  | h e ih =>
    rcases mem_iter.mp hmem with rfl | ⟨c, hc, hmem⟩
    · exact h
    · exact ih c hc (h.child hc) hmem

/-- What is collected below the children of an element. -/
theorem Distinct.flatMap_eq_iff (h : e.Distinct) {f g : Element → List Element}
    (hf : ∀ c ∈ e.children, ∀ x ∈ f c, x ∈ c.iter) (hg : ∀ c ∈ e.children, ∀ x ∈ g c, x ∈ c.iter) :
    e.children.flatMap f = e.children.flatMap g ↔ ∀ c ∈ e.children, f c = g c :=
  List.flatMap_eq_flatMap_iff ((distinct_iff.mp h).2.imp fun hcd x hx hx' => hcd x hx x hx' rfl)
    hf hg

theorem Distinct.eq_of_id_eq (h : root.Distinct) (he : e ∈ root.iter) (he' : e' ∈ root.iter)
    (hid : e.id = e'.id) : e = e' := List.inj_on_of_nodup_map h he he' hid

/-- An element is not below itself. -/
theorem Distinct.id_ne_of_mem_children (h : e.Distinct) (he' : e' ∈ e.iter)
    (hc : c ∈ e'.children) : c.id ≠ e.id := by
  obtain ⟨hchildren, -⟩ := distinct_iff.mp h
  rcases mem_iter.mp he' with rfl | ⟨d, hd, hmem⟩
  · exact (hchildren c hc).2 c self_mem_iter
  · exact (hchildren d hd).2 c (mem_iter_trans hmem (mem_iter_of_mem hc self_mem_iter))

/-- An element is a child of one element. -/
theorem Distinct.parent_unique (h : root.Distinct) (he : e ∈ root.iter) (he' : e' ∈ root.iter)
    (hc : c ∈ e.children) (hc' : c ∈ e'.children) : e = e' := by
  induction root using rec_children with
  | h root ih =>
    -- siblings have no element in common
    have hsame : ∀ d ∈ root.children, ∀ d' ∈ root.children, ∀ x ∈ d.iter, x ∈ d'.iter → d = d' := by
      intro d hd d' hd' x hx hx'
      by_contra hne
      have hsymm : Std.Symm fun c d : Element => ∀ x ∈ c.iter, ∀ y ∈ d.iter, x.id ≠ y.id :=
        ⟨fun a b hab x hx y hy heq => hab y hy x hx heq.symm⟩
      exact (distinct_iff.mp h).2.forall hd hd' hne x hx x hx' rfl
    have hbelow : ∀ d ∈ root.children, ∀ p ∈ d.iter, ∀ c' ∈ root.children, c' ∉ p.children := by
      intro d hd p hp c' hc' hmem
      have hdc : d = c' :=
        hsame d hd c' hc' c' (mem_iter_trans hp (mem_iter_of_mem hmem self_mem_iter)) self_mem_iter
      rw [← hdc] at hmem
      exact (h.child hd).id_ne_of_mem_children hp hmem rfl
    rcases mem_iter.mp he with rfl | ⟨d, hd, hmem⟩
    · rcases mem_iter.mp he' with rfl | ⟨d', hd', hmem'⟩
      · rfl
      · exact absurd hc' (hbelow d' hd' e' hmem' c hc)
    · rcases mem_iter.mp he' with rfl | ⟨d', hd', hmem'⟩
      · exact absurd hc (hbelow d hd e hmem c hc')
      · have hdd : d = d' := hsame d hd d' hd' c
          (mem_iter_trans hmem (mem_iter_of_mem hc self_mem_iter))
          (mem_iter_trans hmem' (mem_iter_of_mem hc' self_mem_iter))
        rw [← hdd] at hmem'
        exact ih d hd (h.child hd) hmem hmem'

/-! ### Branches -/

mutual

/-- The elements of a tree, each with those above it, the parent first. -/
def branches (above : List Element) : Element → List (Element × List Element)
  | mk id tag attrib text children =>
    (mk id tag attrib text children, above) ::
      branchesAll (mk id tag attrib text children :: above) children

def branchesAll (above : List Element) : List Element → List (Element × List Element)
  | [] => []
  | e :: es => branches above e ++ branchesAll above es

end

theorem branches_eq (above : List Element) (e : Element) :
    branches above e = (e, above) :: e.children.flatMap (branches (e :: above)) := by
  have hall : ∀ above es, branchesAll above es = es.flatMap (branches above) := by
    intro above es
    induction es with
    | nil => rfl
    | cons e es ih => rw [branchesAll, ih, List.flatMap_cons]
  cases e with
  | mk id tag attrib text children => rw [branches, hall, Element.children]

theorem map_fst_branches (above : List Element) (e : Element) :
    (branches above e).map Prod.fst = e.iter := by
  induction e using rec_children generalizing above with
  | h e ih =>
    rw [branches_eq, iter_eq, List.map_cons, List.map_flatMap]
    exact congrArg (e :: ·) (List.flatMap_congr fun c hc => ih c hc _)

theorem mem_iter_of_mem_branches {above rest : List Element} (h : (c, rest) ∈ branches above e) :
    c ∈ e.iter := by
  rw [← map_fst_branches above e]
  exact List.mem_map_of_mem (f := Prod.fst) h

/-- The first element above another is its parent, and has a branch of its own. -/
theorem exists_parent_of_mem_branches {above rest : List Element}
    (h : (c, rest) ∈ branches above e) : (c = e ∧ rest = above) ∨
      ∃ p more, rest = p :: more ∧ c ∈ p.children ∧ (p, more) ∈ branches above e := by
  induction e using rec_children generalizing above with
  | h e ih =>
    rw [branches_eq] at h ⊢
    rcases List.mem_cons.mp h with heq | hmem
    · exact .inl (Prod.mk.inj heq)
    · obtain ⟨d, hd, hmem⟩ := List.mem_flatMap.mp hmem
      right
      rcases ih d hd hmem with ⟨rfl, rfl⟩ | ⟨p, more, hrest, hc, hp⟩
      · exact ⟨e, above, rfl, hd, List.mem_cons_self⟩
      · exact ⟨p, more, hrest, hc, List.mem_cons_of_mem _ (List.mem_flatMap.mpr ⟨d, hd, hp⟩)⟩

/-- The elements above another have branches of their own, which are a part of its branch. -/
theorem exists_branch_of_mem_above {rest : List Element} (h : (c, rest) ∈ branches [] root)
    (he : e ∈ rest) : ∃ more, (e, more) ∈ branches [] root ∧ ∀ a ∈ e :: more, a ∈ rest := by
  induction rest generalizing c with
  | nil => exact absurd he List.not_mem_nil
  | cons p rest ih =>
    rcases exists_parent_of_mem_branches h with ⟨-, hnil⟩ | ⟨p', more, heq, -, hp⟩
    · exact absurd hnil (List.cons_ne_nil p rest)
    · obtain ⟨rfl, rfl⟩ := List.cons.inj heq
      rcases List.mem_cons.mp he with rfl | he
      · exact ⟨rest, hp, fun a ha => ha⟩
      · obtain ⟨more, hmore, hsub⟩ := ih hp he
        exact ⟨more, hmore, fun a ha => List.mem_cons_of_mem p (hsub a ha)⟩

/-- All branches of a tree go through it. -/
theorem suffix_of_mem_branches {above rest : List Element} (h : (c, rest) ∈ branches above e) :
    e :: above <:+ c :: rest := by
  induction e using rec_children generalizing above with
  | h e ih =>
    rw [branches_eq] at h
    rcases List.mem_cons.mp h with heq | hmem
    · obtain ⟨rfl, rfl⟩ := Prod.mk.inj heq
      exact List.suffix_rfl
    · obtain ⟨d, hd, hmem⟩ := List.mem_flatMap.mp hmem
      exact (List.suffix_cons d (e :: above)).trans (ih d hd hmem)

/-- A branch is not longer than the tree is large. -/
theorem length_of_mem_branches {above rest : List Element} (h : (c, rest) ∈ branches above e) :
    rest.length + 1 ≤ above.length + e.iter.length := by
  induction e using rec_children generalizing above with
  | h e ih =>
    rw [branches_eq] at h
    rw [iter_eq, List.length_cons]
    rcases List.mem_cons.mp h with heq | hmem
    · rw [(Prod.mk.inj heq).2]
      omega
    · obtain ⟨d, hd, hmem⟩ := List.mem_flatMap.mp hmem
      have hbranch := ih d hd hmem
      have hle : d.iter.length ≤ (e.children.flatMap iter).length :=
        (List.infix_flatMap_of_mem hd iter).length_le
      rw [List.length_cons] at hbranch
      omega

/-- The elements that are below one that satisfies a test, or satisfy it themselves: read from each
of these in turn, or found by their branches, where none of them is below another. -/
theorem flatMap_iter_filter {p q : Element → Bool} {above : List Element}
    (hflat : ∀ x ∈ e.iter, p x = true → ∀ c ∈ x.children, ∀ y ∈ c.iter, p y = false)
    (habove : ∀ a ∈ above, p a = false) :
    (e.iter.filter p).flatMap (fun x => x.iter.filter q) =
      ((branches above e).filter fun b => q b.1 && (b.1 :: b.2).any p).map Prod.fst := by
  induction e using rec_children generalizing above with
  | h e ih =>
    cases hp : p e with
    | true =>
      -- `e` is on every branch, and is the only element that is read from
      have hnone : (e.children.flatMap iter).filter p = [] := by
        refine List.filter_eq_nil_iff.mpr fun y hy => ?_
        obtain ⟨c, hc, hyc⟩ := List.mem_flatMap.mp hy
        rw [hflat e self_mem_iter hp c hc y hyc]
        exact Bool.false_ne_true
      have hany : ∀ b ∈ branches above e, (q b.1 && (b.1 :: b.2).any p) = q b.1 := by
        rintro ⟨c, rest⟩ hb
        have hmem : e ∈ c :: rest := (suffix_of_mem_branches hb).subset List.mem_cons_self
        rw [List.any_eq_true.mpr ⟨e, hmem, hp⟩, Bool.and_true]
      rw [List.filter_congr hany]
      conv => lhs; rw [iter_eq, List.filter_cons, if_pos hp, hnone, List.flatMap_singleton]
      rw [← map_fst_branches above e, List.filter_map]
      rfl
    | false =>
      have hhead : (q e && (e :: above).any p) = false := by
        have habove : above.any p = false := by simpa using habove
        rw [List.any_cons, hp, habove, Bool.or_self, Bool.and_false]
      have hskip : ∀ b : Bool, b = false → ¬b = true := fun b hb => by rw [hb]; decide
      rw [iter_eq, branches_eq, List.filter_cons, if_neg (hskip _ hp), List.filter_cons,
        if_neg (hskip _ hhead), List.filter_flatMap, List.filter_flatMap, List.flatMap_assoc,
        List.map_flatMap]
      refine List.flatMap_congr fun c hc => ?_
      refine ih c hc (fun x hx => hflat x (mem_iter_of_mem hc hx)) fun a ha => ?_
      rcases List.mem_cons.mp ha with rfl | ha
      · exact hp
      · exact habove a ha

/-- The dictionary from the children to their parents. -/
def parents (root : Element) : List (ℕ × Element) :=
  root.iter.flatMap fun parent => parent.children.map fun child => (child.id, parent)

theorem Distinct.nodup_parents (h : root.Distinct) : (root.parents.map Prod.fst).Nodup := by
  have hkeys : root.parents.map Prod.fst =
      root.iter.flatMap fun parent => parent.children.map id := by
    rw [parents, List.map_flatMap]
    exact List.flatMap_congr fun p _ => List.map_map
  have hnodup : root.iter.Nodup := h.of_map _
  rw [hkeys, List.nodup_flatMap]
  constructor
  · intro p hp
    have hp := distinct_iff.mp (h.of_mem_iter hp)
    exact List.pairwise_map.mpr
      (hp.2.imp fun hcd => hcd _ self_mem_iter _ self_mem_iter)
  · refine hnodup.pairwise_of_forall_ne fun p hp p' hp' hne => ?_
    refine List.disjoint_left.mpr ?_
    intro k hk hk'
    obtain ⟨c, hc, rfl⟩ := List.mem_map.mp hk
    obtain ⟨c', hc', hid⟩ := List.mem_map.mp hk'
    have hcc : c' = c := h.eq_of_id_eq (mem_iter_trans hp' (mem_iter_of_mem hc' self_mem_iter))
      (mem_iter_trans hp (mem_iter_of_mem hc self_mem_iter)) hid
    rw [hcc] at hc'
    exact hne (h.parent_unique hp hp' hc hc')

/-- **The dictionary** walks up a branch. -/
theorem Distinct.lookup_parents {rest : List Element} (h : root.Distinct)
    (hb : (c, rest) ∈ branches [] root) : root.parents.lookup c.id = rest.head? := by
  rcases exists_parent_of_mem_branches hb with ⟨rfl, rfl⟩ | ⟨p, more, rfl, hc, hp⟩
  · rw [List.head?_nil, List.lookup_eq_none_iff_notMem]
    intro hmem
    obtain ⟨⟨k, p⟩, hkp, hk⟩ := List.mem_map.mp hmem
    obtain ⟨p, hp, hkp⟩ := List.mem_flatMap.mp hkp
    obtain ⟨d, hd, heq⟩ := List.mem_map.mp hkp
    rw [← heq] at hk
    exact h.id_ne_of_mem_children hp hd hk
  · rw [List.head?_cons, List.lookup_eq_some_iff_mem h.nodup_parents]
    exact List.mem_flatMap.mpr ⟨p, mem_iter_of_mem_branches hp, List.mem_map.mpr ⟨c, hc, rfl⟩⟩

end Element

/-- A document: its elements are distinct. -/
structure Document where
  root : Element
  distinct : root.Distinct

end Xml
