import IChat.Frontend.VisibleText

/-!
# Ranges of the visible text

A match of a search is a part of the visible text, and `rangeForMatch` gives the range of the
document that is highlighted for it. A range is read as the items between its boundary points
(`rangeItems`), with gaps and excluded elements as white space.

* `Located` is what the walk keeps: a unit of the text starts in front of the item that added it,
  and ends behind an item after which the text was as long.
* `Projects` is what a projection of a document promises: as many points as units, single spaces
  between the words only, points in document order, and ranges that read as the part of the text.
* `projects_iff`: the projection of a document does so exactly if no SVG element stands directly
  between two characters. The walk takes such an element for nothing, not for white space.
-/

namespace IChat.Frontend

open Collapse

/-! ### Documents -/

namespace TextPoint

/-- Document order. -/
instance : LT TextPoint :=
  ⟨fun p q => p.node < q.node ∨ p.node = q.node ∧ p.offset < q.offset⟩

instance : LE TextPoint :=
  ⟨fun p q => p.node < q.node ∨ p.node = q.node ∧ p.offset ≤ q.offset⟩

theorem lt_iff {p q : TextPoint} :
    p < q ↔ p.node < q.node ∨ p.node = q.node ∧ p.offset < q.offset := Iff.rfl

theorem le_iff {p q : TextPoint} :
    p ≤ q ↔ p.node < q.node ∨ p.node = q.node ∧ p.offset ≤ q.offset := Iff.rfl

end TextPoint

mutual

/-- The text nodes, in tree order. -/
def Node.textNodes : Node → List ℕ
  | .text node _ => [node]
  | .svg => []
  | .element _ _ _ children => textNodesAll children

def textNodesAll : List Node → List ℕ
  | [] => []
  | child :: children => child.textNodes ++ textNodesAll children

end

/-- A rendered message: its text nodes are counted in tree order. -/
structure Document where
  root : Node
  ordered : root.textNodes.Pairwise (· < ·)

/-- A document as it is read. -/
def Document.items (document : Document) : List Item := document.root.items true

/-- The points in front of the units. -/
def pointsOf (items : List Item) : List TextPoint := items.filterMap Item.start

theorem pointsOf_append (items items' : List Item) :
    pointsOf (items ++ items') = pointsOf items ++ pointsOf items' := List.filterMap_append

theorem mem_pointsOf_textItems {node offset : ℕ} {data : List ℕ} {p : TextPoint}
    (h : p ∈ pointsOf (textItems node offset data)) : p.node = node ∧ offset ≤ p.offset := by
  induction data generalizing offset with
  | nil => cases h
  | cons value data ih =>
    rcases List.mem_cons.mp h with rfl | hmem
    · exact ⟨rfl, le_rfl⟩
    · obtain ⟨hnode, hle⟩ := ih hmem
      exact ⟨hnode, by omega⟩

theorem pairwise_textItems (node offset : ℕ) (data : List ℕ) :
    (pointsOf (textItems node offset data)).Pairwise (· < ·) := by
  induction data generalizing offset with
  | nil => exact List.Pairwise.nil
  | cons value data ih =>
    refine List.pairwise_cons.mpr ⟨fun p hp => ?_, ih (offset + 1)⟩
    obtain ⟨hnode, hle⟩ := mem_pointsOf_textItems hp
    rw [TextPoint.lt_iff]
    exact Or.inr ⟨hnode.symm, hle⟩

/-- The borders of an element have no points. -/
theorem pointsOf_element (isRoot : Bool) (tagName : String) (classes : List String)
    (attributes : List (String × String)) (children : List Node) :
    pointsOf (Node.items isRoot (.element tagName classes attributes children)) =
      if isExcluded tagName classes attributes then [] else pointsOf (itemsAll children) := by
  rw [Node.items]
  by_cases hexcluded : isExcluded tagName classes attributes = true
  · rw [if_pos hexcluded, if_pos hexcluded]
    rfl
  · rw [if_neg hexcluded, if_neg hexcluded]
    dsimp only
    have hgap : pointsOf [Item.gap] = [] := rfl
    have hnil : pointsOf [] = [] := rfl
    rw [pointsOf_append, pointsOf_append]
    split_ifs <;> simp [hgap, hnil]

mutual

theorem mem_textNodes (isRoot : Bool) : ∀ node : Node, ∀ p ∈ pointsOf (node.items isRoot),
    p.node ∈ node.textNodes
  | .text node data => fun p hp => by
    rw [Node.textNodes, List.mem_singleton]
    exact (mem_pointsOf_textItems hp).1
  | .svg => nofun
  | .element tagName classes attributes children => fun p hp => by
    rw [pointsOf_element] at hp
    split_ifs at hp
    · cases hp
    · exact mem_textNodesAll children p hp

theorem mem_textNodesAll : ∀ children : List Node, ∀ p ∈ pointsOf (itemsAll children),
    p.node ∈ textNodesAll children
  | [] => nofun
  | child :: children => fun p hp => by
    rw [itemsAll, pointsOf_append, List.mem_append] at hp
    rw [textNodesAll, List.mem_append]
    exact hp.imp (mem_textNodes false child p) (mem_textNodesAll children p)

end

mutual

theorem pairwise_items (isRoot : Bool) : ∀ node : Node, node.textNodes.Pairwise (· < ·) →
    (pointsOf (node.items isRoot)).Pairwise (· < ·)
  | .text node data => fun _ => pairwise_textItems node 0 data
  | .svg => fun _ => List.Pairwise.nil
  | .element tagName classes attributes children => fun h => by
    rw [pointsOf_element]
    split_ifs
    · exact List.Pairwise.nil
    · exact pairwise_itemsAll children h

theorem pairwise_itemsAll : ∀ children : List Node, (textNodesAll children).Pairwise (· < ·) →
    (pointsOf (itemsAll children)).Pairwise (· < ·)
  | [] => fun _ => List.Pairwise.nil
  | child :: children => fun h => by
    rw [textNodesAll, List.pairwise_append] at h
    rw [itemsAll, pointsOf_append, List.pairwise_append]
    refine ⟨pairwise_items false child h.1, pairwise_itemsAll children h.2.1, fun p hp q hq => ?_⟩
    rw [TextPoint.lt_iff]
    exact Or.inl (h.2.2 _ (mem_textNodes false child p hp) _ (mem_textNodesAll children q hq))

end

/-- The units of a document stand in document order. -/
theorem Document.pairwise_items (document : Document) :
    (pointsOf document.items).Pairwise (· < ·) :=
  IChat.Frontend.pairwise_items true document.root document.ordered

/-! ### What a projection promises -/

/-- The items up to the first one that passes the test. -/
def through (p : Item → Bool) : List Item → List Item
  | [] => []
  | item :: items => if p item then [item] else item :: through p items

/-- The items between two boundary points. -/
def rangeItems (start stop : TextPoint) (items : List Item) : List Item :=
  through (fun item => item.stop = some stop)
    (items.dropWhile fun item => item.start ≠ some start)

/-- A range as it is read, with its white space collapsed. -/
def readRange (document : Document) (start stop : TextPoint) : List ℕ :=
  collapse isSpaceUnit 0x20 ((rangeItems start stop document.items).map Item.value)

/-- An offset of a text that lies within a surrogate pair. -/
def CutsPair (text : List ℕ) (offset : ℕ) : Prop :=
  ∃ before after, 0 < offset ∧ text[offset - 1]? = some before ∧ text[offset]? = some after ∧
    isHighSurrogate before = true ∧ isLowSurrogate after = true

/-- The points stand in document order. -/
structure Sorted (projection : SearchText) : Prop where
  start_lt_end : ∀ (k l : ℕ) (p q : TextPoint), k ≤ l → projection.starts[k]? = some (some p) →
    projection.ends[l]? = some (some q) → p < q
  starts_le : ∀ (k l : ℕ) (p q : TextPoint), k ≤ l → projection.starts[k]? = some (some p) →
    projection.starts[l]? = some (some q) → p ≤ q
  ends_le : ∀ (k l : ℕ) (p q : TextPoint), k ≤ l → projection.ends[k]? = some (some p) →
    projection.ends[l]? = some (some q) → p ≤ q
  end_le_start : ∀ (k l : ℕ) (p q : TextPoint), k < l → projection.ends[k]? = some (some p) →
    projection.starts[l]? = some (some q) → p ≤ q

/-- What a projection of a document promises. -/
structure Projects (document : Document) (projection : SearchText) : Prop where
  starts_length : projection.starts.length = projection.text.length
  ends_length : projection.ends.length = projection.text.length
  normal : Normal isSpaceUnit 0x20 projection.text
  sorted : Sorted projection
  ranges : ∀ i j, i < j → j ≤ projection.text.length → ¬CutsPair projection.text i →
    ¬CutsPair projection.text j → ∀ start stop,
      rangeForMatch projection i j = some (start, stop) →
        readRange document start stop = strip 0x20 ((projection.text.take j).drop i)

/-! ### What the walk keeps -/

theorem isSpaceUnit_space : isSpaceUnit 0x20 = true := by decide

/-- The text after some items, with a space at its end. -/
def textOf (items : List Item) : List ℕ :=
  (items.map Item.value).foldl (append isSpaceUnit 0x20) []

theorem textOf_append (items items' : List Item) :
    textOf (items ++ items') =
      (items'.map Item.value).foldl (append isSpaceUnit 0x20) (textOf items) := by
  rw [textOf, List.map_append, List.foldl_append]
  rfl

theorem plain_textOf (items : List Item) : Plain isSpaceUnit 0x20 (textOf items) :=
  plain_nil.foldl _

/-- More items only add to the text. -/
theorem textOf_prefixes (items items' : List Item) : textOf items <+: textOf (items ++ items') := by
  rw [textOf_append, foldl_append_eq isSpaceUnit_space (plain_textOf items)]
  exact List.prefix_append _ _

theorem textOf_singleton (items : List Item) (item : Item) :
    textOf (items ++ [item]) = append isSpaceUnit 0x20 (textOf items) item.value := by
  rw [textOf_append]
  rfl

/-- Where the units of a text come from, after some items. -/
structure Located (items : List Item) (output : SearchText) : Prop where
  text : output.text = textOf items
  starts_length : output.starts.length = output.text.length
  ends_length : output.ends.length = output.text.length
  starts : ∀ k < output.text.length, ∃ before item after, items = before ++ item :: after ∧
    (textOf before).length = k ∧ (textOf (before ++ [item])).length = k + 1 ∧
      output.starts[k]? = some item.start
  ends : ∀ (k : ℕ) (p : TextPoint), output.ends[k]? = some (some p) → ∃ before item after,
    items = before ++ item :: after ∧ item.stop = some p ∧
      (textOf (before ++ [item])).length = k + 1
  symbols : ∀ (k v : ℕ), output.text[k]? = some v → isSpaceUnit v = false →
    (∃ p, output.starts[k]? = some (some p)) ∧ ∃ p, output.ends[k]? = some (some p)

theorem located_nil : Located [] ⟨[], [], []⟩ :=
  ⟨rfl, rfl, rfl, nofun, by simp, by simp⟩

/-- **Step.** An item adds one unit with its points, or none, and then it moves the end of the space
before it. -/
theorem appendItem_cases (output : SearchText) (item : Item) :
    (∃ v, append isSpaceUnit 0x20 output.text item.value = output.text ++ [v] ∧
      output.appendItem item =
        ⟨output.text ++ [v], output.starts ++ [item.start], output.ends ++ [item.stop]⟩ ∧
      (isSpaceUnit v = false → ∃ point value, item = .unit point value)) ∨
    append isSpaceUnit 0x20 output.text item.value = output.text ∧
      (output.appendItem item = output ∨ output.text.getLast? = some 0x20 ∧ item.stop.isSome ∧
        output.appendItem item =
          { output with ends := output.ends.dropLast ++ [item.stop] }) := by
  have hstart : item.start.map (fun point => (⟨point.node, point.offset + 0⟩ : TextPoint)) =
      item.start := by
    cases item <;> rfl
  have hstop : item.stop.map
      (fun point => (⟨point.node, point.offset - 1 + 0 + 1⟩ : TextPoint)) = item.stop := by
    cases item <;> rfl
  have hpush : ∀ v, output.push [v] item.start item.stop =
      ⟨output.text ++ [v], output.starts ++ [item.start], output.ends ++ [item.stop]⟩ := by
    intro v
    simp only [SearchText.push, List.length_singleton, List.range_one, List.map_cons, List.map_nil,
      hstart, hstop]
  rw [SearchText.appendItem, SearchText.append, append, List.any_cons, List.any_nil, Bool.or_false]
  cases hspace : isSpaceUnit item.value with
  | false =>
    refine Or.inl ⟨item.value, rfl, hpush _, fun _ => ?_⟩
    cases item with
    | unit point value => exact ⟨point, value, rfl⟩
    | gap => exact absurd hspace (by decide)
    | svg => exact absurd hspace (by decide)
  | true =>
    rw [if_pos rfl, if_pos rfl]
    by_cases hend : output.text = [] ∨ output.text.getLast? = some 0x20
    · rw [if_pos hend, if_pos hend]
      refine Or.inr ⟨rfl, ?_⟩
      by_cases hlast : output.text.getLast? = some 0x20 ∧ item.stop.isSome
      · rw [if_pos hlast]
        exact Or.inr ⟨hlast.1, hlast.2, rfl⟩
      · rw [if_neg hlast]
        exact Or.inl rfl
    · rw [if_neg hend, if_neg hend]
      exact Or.inl ⟨0x20, rfl, hpush _, fun hfalse => absurd hfalse (by decide)⟩

/-- **Step.** -/
theorem Located.append {items : List Item} {output : SearchText} (h : Located items output)
    (item : Item) : Located (items ++ [item]) (output.appendItem item) := by
  have hextend : ∀ {before : List Item} {found : Item} {after : List Item},
      items = before ++ found :: after →
        items ++ [item] = before ++ found :: (after ++ [item]) := by
    rintro before found after rfl
    simp
  have htext := textOf_singleton items item
  rw [← h.text] at htext
  rcases appendItem_cases output item with ⟨v, hv, happend, hunit⟩ | ⟨hv, hcase⟩
  · rw [hv] at htext
    have hlength : (textOf (items ++ [item])).length = output.text.length + 1 := by
      rw [htext, List.length_append, List.length_singleton]
    have hitems : (textOf items).length = output.text.length := by rw [h.text]
    rw [happend]
    refine ⟨htext.symm, by simp [h.starts_length], by simp [h.ends_length], fun k hk => ?_,
      fun k p hp => ?_, fun k w hw hsymbol => ?_⟩
    · dsimp only at hk ⊢
      rw [List.length_append, List.length_singleton] at hk
      rcases Nat.lt_succ_iff_lt_or_eq.mp hk with hold | rfl
      · obtain ⟨before, found, after, hsplit, hbefore, hfound, hstart⟩ := h.starts k hold
        refine ⟨before, found, _, hextend hsplit, hbefore, hfound, ?_⟩
        rw [List.getElem?_append_left (by rw [h.starts_length]; exact hold)]
        exact hstart
      · refine ⟨items, item, [], rfl, hitems, hlength, ?_⟩
        rw [← h.starts_length, List.getElem?_concat_length]
    · dsimp only at hp
      by_cases hk : k < output.ends.length
      · rw [List.getElem?_append_left hk] at hp
        obtain ⟨before, found, after, hsplit, hstop, hfound⟩ := h.ends k p hp
        exact ⟨before, found, _, hextend hsplit, hstop, hfound⟩
      · obtain ⟨hlt, -⟩ := List.getElem?_eq_some_iff.mp hp
        rw [List.length_append, List.length_singleton] at hlt
        obtain rfl : k = output.ends.length := by omega
        rw [List.getElem?_concat_length] at hp
        exact ⟨items, item, [], rfl, Option.some.inj hp, by rw [hlength, h.ends_length]⟩
    · dsimp only at hw ⊢
      by_cases hk : k < output.text.length
      · rw [List.getElem?_append_left hk] at hw
        rw [List.getElem?_append_left (by rw [h.starts_length]; exact hk),
          List.getElem?_append_left (by rw [h.ends_length]; exact hk)]
        exact h.symbols k w hw hsymbol
      · obtain ⟨hlt, -⟩ := List.getElem?_eq_some_iff.mp hw
        rw [List.length_append, List.length_singleton] at hlt
        obtain rfl : k = output.text.length := by omega
        rw [List.getElem?_concat_length] at hw
        cases hw
        obtain ⟨point, value, rfl⟩ := hunit hsymbol
        constructor
        · exact ⟨_, by rw [← h.starts_length, List.getElem?_concat_length]; rfl⟩
        · exact ⟨_, by rw [← h.ends_length, List.getElem?_concat_length]; rfl⟩
  · rw [hv] at htext
    have hstarts : ∀ k < output.text.length, ∃ before found after,
        items ++ [item] = before ++ found :: after ∧ (textOf before).length = k ∧
          (textOf (before ++ [found])).length = k + 1 ∧ output.starts[k]? = some found.start := by
      intro k hk
      obtain ⟨before, found, after, hsplit, hrest⟩ := h.starts k hk
      exact ⟨before, found, _, hextend hsplit, hrest⟩
    have hends : ∀ (k : ℕ) (p : TextPoint), output.ends[k]? = some (some p) →
        ∃ before found after, items ++ [item] = before ++ found :: after ∧ found.stop = some p ∧
          (textOf (before ++ [found])).length = k + 1 := by
      intro k p hp
      obtain ⟨before, found, after, hsplit, hrest⟩ := h.ends k p hp
      exact ⟨before, found, _, hextend hsplit, hrest⟩
    rcases hcase with hsame | ⟨hlast, hstop, hmoved⟩
    · rw [hsame]
      exact ⟨htext.symm, h.starts_length, h.ends_length, hstarts, hends, h.symbols⟩
    · rw [hmoved]
      obtain ⟨init, hinit⟩ := List.getLast?_eq_some_iff.mp hlast
      have hpositive : 0 < output.ends.length := by
        rw [h.ends_length, hinit]
        simp
      have hdrop : output.ends.dropLast.length = output.text.length - 1 := by
        rw [List.length_dropLast, h.ends_length]
      have hold : ∀ k < output.text.length - 1,
          (output.ends.dropLast ++ [item.stop])[k]? = output.ends[k]? := by
        intro k hk
        rw [List.getElem?_append_left (by rw [hdrop]; exact hk), List.getElem?_dropLast,
          if_pos (by rw [h.ends_length]; exact hk)]
      refine ⟨htext.symm, h.starts_length, ?_, hstarts, fun k p hp => ?_,
        fun k w hw hsymbol => ?_⟩
      · dsimp only
        rw [List.length_append, List.length_singleton, hdrop]
        rw [h.ends_length] at hpositive
        omega
      · dsimp only at hp
        by_cases hk : k < output.text.length - 1
        · rw [hold k hk] at hp
          exact hends k p hp
        · obtain ⟨hlt, -⟩ := List.getElem?_eq_some_iff.mp hp
          rw [List.length_append, List.length_singleton, hdrop] at hlt
          obtain rfl : k = output.ends.dropLast.length := by omega
          rw [List.getElem?_concat_length] at hp
          refine ⟨items, item, [], rfl, Option.some.inj hp, ?_⟩
          rw [htext, hdrop]
          rw [h.ends_length] at hpositive
          omega
      · obtain ⟨hstart, hend⟩ := h.symbols k w hw hsymbol
        refine ⟨hstart, ?_⟩
        -- the last unit is a space
        have hk : k < output.text.length - 1 := by
          have hlt : k < output.text.length := (List.getElem?_eq_some_iff.mp hw).1
          by_contra hge
          have hkeq : k = init.length := by
            have hlen : output.text.length = init.length + 1 := by simp [hinit]
            omega
          have hspace : output.text[k]? = some 0x20 := by
            rw [hinit, hkeq, List.getElem?_concat_length]
          rw [hspace] at hw
          cases hw
          exact absurd hsymbol (by decide)
        show ∃ p, (output.ends.dropLast ++ [item.stop])[k]? = some (some p)
        rw [hold k hk]
        exact hend

/-- **Run.** -/
theorem located_foldl (items : List Item) :
    Located items (items.foldl SearchText.appendItem ⟨[], [], []⟩) := by
  induction items using List.reverseRecOn with
  | nil => exact located_nil
  | append_singleton items item ih =>
    rw [List.foldl_append, List.foldl_cons, List.foldl_nil]
    exact ih.append item

/-! ### Document order -/

theorem TextPoint.not_lt_self (p : TextPoint) : ¬p < p := by
  rw [TextPoint.lt_iff]
  omega

theorem Item.stop_eq_some_iff {item : Item} {q : TextPoint} :
    item.stop = some q ↔ ∃ p, item.start = some p ∧ q = ⟨p.node, p.offset + 1⟩ := by
  cases item with
  | unit =>
    simp only [Item.stop, Item.start, Option.some.injEq, exists_eq_left']
    exact eq_comm
  | gap => simp [Item.stop, Item.start]
  | svg => simp [Item.stop, Item.start]

section order

variable {items before before' after after' : List Item} {found found' : Item}

/-- An item before which the text is shorter does not stand behind. -/
theorem length_le_of_textOf (h : items = before ++ found :: after)
    (h' : items = before' ++ found' :: after')
    (hlt : (textOf before).length < (textOf (before' ++ [found'])).length) :
    before.length ≤ before'.length := by
  by_contra hgt
  have hprefix : before <+: items := ⟨found :: after, h.symm⟩
  have hprefix' : before' ++ [found'] <+: items := ⟨after', by rw [h']; simp⟩
  obtain ⟨rest, hrest⟩ := List.prefix_of_prefix_length_le hprefix' hprefix (by
    rw [List.length_append, List.length_singleton]
    omega)
  have hle := (textOf_prefixes (before' ++ [found']) rest).length_le
  rw [hrest] at hle
  omega

/-- Items in the order in which they stand. -/
theorem point_lt_of_length_lt (hordered : (pointsOf items).Pairwise (· < ·))
    (h : items = before ++ found :: after) (h' : items = before' ++ found' :: after')
    (hlt : before.length < before'.length) {p q : TextPoint} (hp : found.start = some p)
    (hq : found'.start = some q) : p < q := by
  obtain ⟨middle, hmiddle⟩ := List.prefix_of_prefix_length_le
    (⟨after, by rw [h]; simp⟩ : before ++ [found] <+: items)
    (⟨found' :: after', h'.symm⟩ : before' <+: items) (by
      rw [List.length_append, List.length_singleton]
      omega)
  have hitems : items = before ++ (found :: (middle ++ found' :: after')) := by
    rw [h', ← hmiddle]
    simp
  have hcons : pointsOf (found :: (middle ++ found' :: after')) =
      p :: pointsOf (middle ++ found' :: after') := List.filterMap_cons_some hp
  rw [hitems, pointsOf_append, hcons, List.pairwise_append] at hordered
  refine (List.pairwise_cons.mp hordered.2.1).1 q ?_
  exact List.mem_filterMap.mpr ⟨found', by simp, hq⟩

theorem point_le_of_length_le (hordered : (pointsOf items).Pairwise (· < ·))
    (h : items = before ++ found :: after) (h' : items = before' ++ found' :: after')
    (hle : before.length ≤ before'.length) {p q : TextPoint} (hp : found.start = some p)
    (hq : found'.start = some q) : p = q ∨ p < q := by
  rcases Nat.eq_or_lt_of_le hle with heq | hlt
  · obtain ⟨-, hrest⟩ := List.append_inj (h.symm.trans h') heq
    obtain ⟨rfl, -⟩ := List.cons.inj hrest
    exact Or.inl (Option.eq_some_unique hp hq)
  · exact Or.inr (point_lt_of_length_lt hordered h h' hlt hp hq)

end order

/-- **Order.** The points stand in document order. -/
theorem Located.sorted {items : List Item} {output : SearchText} (h : Located items output)
    (hordered : (pointsOf items).Pairwise (· < ·)) : Sorted output := by
  have hstart : ∀ (k : ℕ) (p : TextPoint), output.starts[k]? = some (some p) →
      ∃ before item after, items = before ++ item :: after ∧ (textOf before).length = k ∧
        (textOf (before ++ [item])).length = k + 1 ∧ item.start = some p := by
    intro k p hp
    have hk : k < output.text.length := by
      rw [← h.starts_length]
      exact (List.getElem?_eq_some_iff.mp hp).1
    obtain ⟨before, item, after, hsplit, hbefore, hitem, hget⟩ := h.starts k hk
    rw [hp] at hget
    exact ⟨before, item, after, hsplit, hbefore, hitem, (Option.some.inj hget).symm⟩
  have hend : ∀ (k : ℕ) (q : TextPoint), output.ends[k]? = some (some q) →
      ∃ before item after p, items = before ++ item :: after ∧
        (textOf (before ++ [item])).length = k + 1 ∧ item.start = some p ∧
          q = ⟨p.node, p.offset + 1⟩ := by
    intro k q hq
    obtain ⟨before, item, after, hsplit, hstop, hitem⟩ := h.ends k q hq
    obtain ⟨p, hp, hpq⟩ := Item.stop_eq_some_iff.mp hstop
    exact ⟨before, item, after, p, hsplit, hitem, hp, hpq⟩
  constructor
  · intro k l p q hkl hp hq
    obtain ⟨before, item, after, hsplit, hbefore, -, hpoint⟩ := hstart k p hp
    obtain ⟨before', item', after', p', hsplit', hlength, hpoint', rfl⟩ := hend l q hq
    have hle := point_le_of_length_le hordered hsplit hsplit'
      (length_le_of_textOf hsplit hsplit' (by omega)) hpoint hpoint'
    rw [TextPoint.lt_iff]
    rw [TextPoint.lt_iff] at hle
    rcases hle with rfl | hlt
    · exact Or.inr ⟨rfl, Nat.lt_succ_self _⟩
    · dsimp only
      omega
  · intro k l p q hkl hp hq
    obtain ⟨before, item, after, hsplit, hbefore, -, hpoint⟩ := hstart k p hp
    obtain ⟨before', item', after', hsplit', -, hlength, hpoint'⟩ := hstart l q hq
    have hle := point_le_of_length_le hordered hsplit hsplit'
      (length_le_of_textOf hsplit hsplit' (by omega)) hpoint hpoint'
    rw [TextPoint.le_iff]
    rw [TextPoint.lt_iff] at hle
    rcases hle with rfl | hlt
    · exact Or.inr ⟨rfl, le_rfl⟩
    · omega
  · intro k l p q hkl hp hq
    rcases Nat.eq_or_lt_of_le hkl with rfl | hlt
    · obtain rfl : p = q := Option.some.inj (Option.some.inj (hp.symm.trans hq))
      exact TextPoint.le_iff.mpr (Or.inr ⟨rfl, le_rfl⟩)
    · obtain ⟨before, item, after, p', hsplit, hlength, hpoint, rfl⟩ := hend k p hp
      obtain ⟨before', item', after', q', hsplit', hlength', hpoint', rfl⟩ := hend l q hq
      have hshort := (textOf_prefixes before [item]).length_le
      have hle := point_le_of_length_le hordered hsplit hsplit'
        (length_le_of_textOf hsplit hsplit' (by omega)) hpoint hpoint'
      rw [TextPoint.le_iff]
      rw [TextPoint.lt_iff] at hle
      dsimp only
      rcases hle with rfl | hlt
      · exact Or.inr ⟨rfl, le_rfl⟩
      · omega
  · intro k l p q hkl hp hq
    obtain ⟨before, item, after, p', hsplit, hlength, hpoint, rfl⟩ := hend k p hp
    obtain ⟨before', item', after', hsplit', hbefore', hlength', hpoint'⟩ := hstart l q hq
    have hshort := (textOf_prefixes before [item]).length_le
    have hle := length_le_of_textOf hsplit hsplit' (by omega)
    -- the two items add different units
    have hne : before.length ≠ before'.length := by
      intro heq
      obtain ⟨rfl, hrest⟩ := List.append_inj (hsplit.symm.trans hsplit') heq
      obtain ⟨rfl, -⟩ := List.cons.inj hrest
      omega
    have hlt := point_lt_of_length_lt hordered hsplit hsplit' (Nat.lt_of_le_of_ne hle hne) hpoint
      hpoint'
    rw [TextPoint.lt_iff] at hlt
    rw [TextPoint.le_iff]
    dsimp only
    omega

/-! ### The projection -/

/-- The projection is what the walk collected, without a space at the end. -/
theorem buildVisibleSearchText_eq (document : Document) :
    ∃ output n, Located (visited document.items) output ∧ n ≤ output.text.length ∧
      buildVisibleSearchText document.root =
        ⟨output.text.take n, output.starts.take n, output.ends.take n⟩ ∧
      output.text.take n =
        collapse isSpaceUnit 0x20 ((visited document.items).map Item.value) ∧
      ∀ v ∈ output.text.drop n, v = 0x20 := by
  have hlocated := located_foldl (visited document.items)
  have hwalk := walk_eq_foldl true ⟨[], [], []⟩ document.root
  rw [buildVisibleSearchText, hwalk]
  have hitems : visited (document.root.items true) = visited document.items := rfl
  rw [hitems]
  generalize (visited document.items).foldl SearchText.appendItem ⟨[], [], []⟩ = output
    at hlocated
  have htext : collapse isSpaceUnit 0x20 ((visited document.items).map Item.value) =
      trim 0x20 output.text := by rw [hlocated.text]; rfl
  rw [htext, trim]
  by_cases hlast : output.text.getLast? = some 0x20
  · obtain ⟨init, hinit⟩ := List.getLast?_eq_some_iff.mp hlast
    have hlength : output.text.length = init.length + 1 := by simp [hinit]
    refine ⟨output, init.length, hlocated, by omega, ?_, ?_, ?_⟩
    · rw [if_pos hlast, List.dropLast_eq_take, List.dropLast_eq_take, List.dropLast_eq_take,
        hlocated.starts_length, hlocated.ends_length, hlength, Nat.add_sub_cancel]
    · rw [if_pos hlast, hinit, List.take_left, List.dropLast_concat]
    · rw [hinit, List.drop_left]
      exact fun v hv => List.mem_singleton.mp hv
  · refine ⟨output, output.text.length, hlocated, le_rfl, ?_, ?_, ?_⟩
    · have hstarts : output.starts.take output.text.length = output.starts := by
        rw [← hlocated.starts_length, List.take_length]
      have hends : output.ends.take output.text.length = output.ends := by
        rw [← hlocated.ends_length, List.take_length]
      rw [if_neg hlast, hstarts, hends, List.take_length]
    · rw [if_neg hlast, List.take_length]
    · rw [List.drop_length]
      exact fun v hv => absurd hv List.not_mem_nil

/-- A part of an output keeps its order. -/
theorem Sorted.take {output : SearchText} (h : Sorted output) (n : ℕ) :
    Sorted ⟨output.text.take n, output.starts.take n, output.ends.take n⟩ := by
  have hsub : ∀ {l : List (Option TextPoint)} {k : ℕ} {p : Option TextPoint},
      (l.take n)[k]? = some p → l[k]? = some p := by
    intro l k p hp
    rw [List.getElem?_take] at hp
    split_ifs at hp
    exact hp
  exact ⟨fun k l p q hkl hp hq => h.start_lt_end k l p q hkl (hsub hp) (hsub hq),
    fun k l p q hkl hp hq => h.starts_le k l p q hkl (hsub hp) (hsub hq),
    fun k l p q hkl hp hq => h.ends_le k l p q hkl (hsub hp) (hsub hq),
    fun k l p q hkl hp hq => h.end_le_start k l p q hkl (hsub hp) (hsub hq)⟩

/-! ### Ranges -/

theorem through_append {p : Item → Bool} {items : List Item} {item : Item} {rest : List Item}
    (hitems : ∀ x ∈ items, p x = false) (hitem : p item = true) :
    through p (items ++ item :: rest) = items ++ [item] := by
  induction items with
  | nil => exact if_pos hitem
  | cons x items ih =>
    rw [List.cons_append, through, if_neg (by simp [hitems x List.mem_cons_self]),
      ih fun y hy => hitems y (List.mem_cons_of_mem _ hy)]
    rfl

/-- The items of a range between a unit of the text and a later one. -/
theorem Located.exists_range {items : List Item} {output : SearchText} (h : Located items output)
    (hordered : (pointsOf items).Pairwise (· < ·)) {i j : ℕ} (hij : i < j) {start stop : TextPoint}
    (hstart : output.starts[i]? = some (some start))
    (hstop : output.ends[j - 1]? = some (some stop)) :
    ∃ before range after, items = before ++ range ++ after ∧
      (textOf before).length = i ∧ (textOf (before ++ range)).length = j ∧
      items.takeWhile (fun item => item.start ≠ some start) = before ∧
      rangeItems start stop items = range := by
  have hi : i < output.text.length := by
    rw [← h.starts_length]
    exact (List.getElem?_eq_some_iff.mp hstart).1
  obtain ⟨before, item, after, hsplit, hbefore, -, hget⟩ := h.starts i hi
  have hitem : item.start = some start := by
    rw [hstart] at hget
    exact (Option.some.inj hget).symm
  obtain ⟨before', item', after', hsplit', hitem', hlength⟩ := h.ends (j - 1) stop hstop
  have hle := length_le_of_textOf hsplit hsplit' (by omega)
  -- the range starts with the one item and ends with the other
  obtain ⟨middle, hmiddle⟩ := List.prefix_of_prefix_length_le
    (⟨item :: after, hsplit.symm⟩ : before <+: items)
    (⟨item' :: after', hsplit'.symm⟩ : before' <+: items) hle
  have hitems : items = before ++ (middle ++ item' :: after') := by
    rw [hsplit', ← hmiddle, List.append_assoc]
  obtain ⟨rest, hrest⟩ : ∃ rest, middle ++ item' :: after' = item :: rest :=
    ⟨after, List.append_cancel_left (hitems.symm.trans hsplit)⟩
  have hout : ∀ x ∈ before, x.start ≠ some start := by
    intro x hx hpoint
    obtain ⟨front, back, rfl⟩ := List.append_of_mem hx
    have hlt := point_lt_of_length_lt hordered
      (by rw [hsplit]; simp : items = front ++ x :: (back ++ item :: after)) hsplit
      (by simp) hpoint hitem
    exact TextPoint.not_lt_self start hlt
  have hfirst : ¬(decide (item.start ≠ some start) = true) := by simp [hitem]
  have hbeforeAll : ∀ x ∈ before, decide (x.start ≠ some start) = true := fun x hx =>
    decide_eq_true (hout x hx)
  have hinside : ∀ x ∈ middle, decide (x.stop = some stop) = false := by
    intro x hx
    refine decide_eq_false fun hpoint => ?_
    obtain ⟨p, hp, hpstop⟩ := Item.stop_eq_some_iff.mp hpoint
    obtain ⟨q, hq, hqstop⟩ := Item.stop_eq_some_iff.mp hitem'
    obtain ⟨front, back, rfl⟩ := List.append_of_mem hx
    have hlt := point_lt_of_length_lt hordered
      (by rw [hitems]; simp : items = (before ++ front) ++ x :: (back ++ item' :: after')) hsplit'
      (by rw [← hmiddle]; simp) hp hq
    have hsame : p = q := by
      have heq := hpstop.symm.trans hqstop
      simp only [TextPoint.mk.injEq, Nat.add_right_cancel_iff] at heq
      cases p
      cases q
      simp_all
    exact TextPoint.not_lt_self q (hsame ▸ hlt)
  refine ⟨before, middle ++ [item'], after', by rw [hitems]; simp, hbefore, ?_, ?_, ?_⟩
  · rw [← List.append_assoc, hmiddle, hlength]
    omega
  · have htake : (item :: rest).takeWhile (fun item => decide (item.start ≠ some start)) = [] :=
      List.takeWhile_cons_of_neg hfirst
    rw [hitems, List.takeWhile_append_of_pos hbeforeAll, hrest, htake, List.append_nil]
  · have hdrop : (item :: rest).dropWhile (fun item => decide (item.start ≠ some start)) =
        item :: rest := List.dropWhile_cons_of_neg hfirst
    rw [rangeItems, hitems, List.dropWhile_append_of_pos hbeforeAll, hrest, hdrop, ← hrest]
    exact through_append hinside (decide_eq_true hitem')

/-! ### Excluded elements of SVG -/

theorem visited_cons_of_svg {item : Item} (h : item.isSvg = true) (items : List Item) :
    visited (item :: items) = visited items := List.filter_cons_of_neg (by simp [h])

theorem visited_cons {item : Item} (h : item.isSvg = false) (items : List Item) :
    visited (item :: items) = item :: visited items := List.filter_cons_of_pos (by simp [h])

theorem visited_dropWhile {p : Item → Bool} (hp : ∀ item, item.isSvg = true → p item = true)
    (items : List Item) : visited (items.dropWhile p) = (visited items).dropWhile p := by
  induction items with
  | nil => rfl
  | cons item items ih =>
    by_cases hitem : p item = true
    · rw [List.dropWhile_cons_of_pos hitem, ih]
      cases hsvg : item.isSvg with
      | true => rw [visited_cons_of_svg hsvg]
      | false => rw [visited_cons hsvg, List.dropWhile_cons_of_pos hitem]
    · have hnot : item.isSvg = false := by
        by_contra hsvg
        exact hitem (hp item (by simpa using hsvg))
      rw [List.dropWhile_cons_of_neg hitem, visited_cons hnot, List.dropWhile_cons_of_neg hitem]

theorem visited_takeWhile {p : Item → Bool} (hp : ∀ item, item.isSvg = true → p item = true)
    (items : List Item) : visited (items.takeWhile p) = (visited items).takeWhile p := by
  have hsplit := visited_append (items.takeWhile p) (items.dropWhile p)
  rw [List.takeWhile_append_dropWhile, visited_dropWhile hp] at hsplit
  have hself := List.takeWhile_append_dropWhile (p := p) (l := visited items)
  exact (List.append_cancel_right (hself.trans hsplit)).symm

theorem visited_through {p : Item → Bool} (hp : ∀ item, item.isSvg = true → p item = false)
    (items : List Item) : visited (through p items) = through p (visited items) := by
  induction items with
  | nil => rfl
  | cons item items ih =>
    cases hsvg : item.isSvg with
    | true =>
      rw [through, if_neg (by simp [hp item hsvg]), visited_cons_of_svg hsvg,
        visited_cons_of_svg hsvg, ih]
    | false =>
      rw [through, visited_cons hsvg, through]
      split_ifs
      · rw [visited_cons hsvg]
        rfl
      · rw [visited_cons hsvg, ih]

theorem through_prefix (p : Item → Bool) (items : List Item) : through p items <+: items := by
  induction items with
  | nil => exact List.prefix_rfl
  | cons item items ih =>
    rw [through]
    split_ifs
    · exact List.prefix_append [item] items
    · exact (List.prefix_cons_inj item).mpr ih

/-- A range of the document, and what the walk visits of it. -/
theorem exists_rangeItems (items : List Item) (start stop : TextPoint) :
    ∃ after, items = items.takeWhile (fun item => item.start ≠ some start) ++
        rangeItems start stop items ++ after ∧
      visited (items.takeWhile fun item => item.start ≠ some start) =
        (visited items).takeWhile (fun item => item.start ≠ some start) ∧
      visited (rangeItems start stop items) = rangeItems start stop (visited items) := by
  have hstart : ∀ item : Item, item.isSvg = true → decide (item.start ≠ some start) = true := by
    intro item hitem
    cases item <;> simp_all [Item.isSvg, Item.start]
  have hstop : ∀ item : Item, item.isSvg = true → decide (item.stop = some stop) = false := by
    intro item hitem
    cases item <;> simp_all [Item.isSvg, Item.stop]
  obtain ⟨after, hafter⟩ := through_prefix (fun item => item.stop = some stop)
    (items.dropWhile fun item => item.start ≠ some start)
  refine ⟨after, ?_, visited_takeWhile hstart items, ?_⟩
  · rw [rangeItems, List.append_assoc, hafter, List.takeWhile_append_dropWhile]
  · rw [rangeItems, visited_through hstop, visited_dropWhile hstart, rangeItems]

theorem required_eq (items : List Item) :
    required Item.value Item.isSvg items = (visited items).map Item.value := rfl

theorem pointsOf_visited (items : List Item) : pointsOf (visited items) = pointsOf items := by
  rw [pointsOf, pointsOf, visited, List.filterMap_filter]
  refine List.filterMap_congr fun item _ => ?_
  cases item <;> rfl

/-! ### What a range reads -/

/-- A range of the projection, in the document and in the text. -/
theorem Located.range_spec {document : Document} {output : SearchText} {n i j : ℕ}
    (h : Located (visited document.items) output) (hij : i < j) (hj : j ≤ n)
    {start stop : TextPoint}
    (hrange : rangeForMatch
      ⟨output.text.take n, output.starts.take n, output.ends.take n⟩ i j = some (start, stop)) :
    ∃ before after,
      document.items = before ++ rangeItems start stop document.items ++ after ∧
      (textOf (visited before)).length = i ∧
      textOf (visited before ++ visited (rangeItems start stop document.items)) =
        output.text.take j ∧
      collapse isSpaceUnit 0x20
          (required Item.value Item.isSvg (rangeItems start stop document.items)) =
        strip 0x20 (((output.text.take n).take j).drop i) := by
  have hpoints : output.starts[i]? = some (some start) ∧ output.ends[j - 1]? =
    some (some stop) := by
    simp only [rangeForMatch, Option.bind_eq_bind, Option.bind_eq_some_iff, List.getElem?_take]
      at hrange
    obtain ⟨start', hstart, stop', hstop, p, hp, q, hq, hresult⟩ := hrange
    rw [if_pos (by omega)] at hstart hstop
    rw [if_neg (by omega)] at hresult
    obtain ⟨rfl, rfl⟩ := Prod.mk.inj (Option.some.inj hresult)
    rw [hstart, hstop, hp, hq]
    exact ⟨rfl, rfl⟩
  have hordered : (pointsOf (visited document.items)).Pairwise (· < ·) := by
    rw [pointsOf_visited]
    exact document.pairwise_items
  obtain ⟨before, range, after, hsplit, hbefore, hlength, htake, hitems⟩ :=
    h.exists_range hordered hij hpoints.1 hpoints.2
  obtain ⟨rest, hdocument, hvisitedBefore, hvisitedRange⟩ :=
    exists_rangeItems document.items start stop
  rw [htake] at hvisitedBefore
  rw [hitems] at hvisitedRange
  have htext : textOf (before ++ range) = output.text.take j := by
    have hprefix := textOf_prefixes (before ++ range) after
    rw [← hsplit, ← h.text] at hprefix
    rw [← hlength]
    exact List.prefix_iff_eq_take.mp hprefix
  refine ⟨_, rest, hdocument, by rw [hvisitedBefore, hbefore], by rw [hvisitedBefore,
    hvisitedRange, htext], ?_⟩
  rw [required_eq, hvisitedRange, List.take_take, Nat.min_eq_left hj, ← htext, textOf_append,
    ← hbefore, strip_drop_foldl isSpaceUnit_space (plain_textOf before)]

theorem symbol_of_ne {out : List ℕ} (h : Normal isSpaceUnit 0x20 out) {v : ℕ} (hv : v ∈ out)
    (hne : v ≠ 0x20) : isSpaceUnit v = false := by
  by_contra hspace
  exact hne (h.plain v hv (by simpa using hspace))

/-- **Projection.** The projection of a document keeps its promise exactly if no SVG element stands
directly between two characters. -/
theorem projects_iff (document : Document) :
    Projects document (buildVisibleSearchText document.root) ↔
      Apart isSpaceUnit Item.value Item.isSvg document.items := by
  obtain ⟨output, n, hlocated, hn, hbuild, htext, htail⟩ := buildVisibleSearchText_eq document
  rw [hbuild]
  have hnormal : Normal isSpaceUnit 0x20 (output.text.take n) := by
    rw [htext]
    exact normal_collapse isSpaceUnit_space _
  have hlength : (output.text.take n).length = n := List.length_take_of_le hn
  have hoptional : ∀ item : Item, item.isSvg = true → isSpaceUnit item.value = true := by
    intro item hitem
    cases item <;> first | rfl | cases hitem
  constructor
  · intro h
    -- the symbols of the text are those of the items
    have hsymbols : ∀ items : List Item, (textOf items).filter (fun v => !isSpaceUnit v) =
        (items.map Item.value).filter fun v => !isSpaceUnit v := by
      intro items
      rw [textOf, filter_foldl isSpaceUnit_space]
      rfl
    have hspaces : ∀ l : List ℕ, l.filter (fun v => !isSpaceUnit v) = [] →
        ∀ v ∈ l, isSpaceUnit v = true := by
      intro l hl v hv
      simpa using List.filter_eq_nil_iff.mp hl v hv
    have htailNone : (output.text.drop n).filter (fun v => !isSpaceUnit v) = [] := by
      refine List.filter_eq_nil_iff.mpr fun v hv => ?_
      rw [htail v hv, isSpaceUnit_space]
      exact Bool.false_ne_true
    have hall := hsymbols (visited document.items)
    rw [← hlocated.text, ← List.take_append_drop n output.text, List.filter_append, htailNone,
      List.append_nil] at hall
    cases hempty : output.text.take n with
    | nil =>
      rw [hempty, List.filter_nil] at hall
      have hnil : Apart isSpaceUnit Item.value Item.isSvg [] := by
        intro before b rest hsplit
        simp at hsplit
      have hwhole := hnil.of_part (a := document.items) (c := []) (hspaces _ hall.symm) nofun
      simpa using hwhole
    | cons v t =>
      have hpositive : 0 < n := by
        rw [← hlength, hempty]
        exact Nat.succ_pos _
      have hget : ∀ k < n, output.text[k]? = (output.text.take n)[k]? := fun k hk => by
        rw [List.getElem?_take, if_pos hk]
      -- the first and the last unit are no spaces
      obtain ⟨⟨start, hstart⟩, -⟩ := hlocated.symbols 0 v (by rw [hget 0 hpositive, hempty]; rfl)
        (symbol_of_ne hnormal (by rw [hempty]; exact List.mem_cons_self) fun heq =>
          hnormal.head (by rw [hempty, heq]; rfl))
      obtain ⟨w, hw⟩ : ∃ w, (output.text.take n).getLast? = some w := by
        rw [hempty]
        exact ⟨_, List.getLast?_eq_some_getLast (List.cons_ne_nil v t)⟩
      have hlastGet : output.text[n - 1]? = some w := by
        rw [hget (n - 1) (by omega), ← hw, List.getLast?_eq_getElem?, hlength]
      obtain ⟨-, stop, hstop⟩ := hlocated.symbols (n - 1) w hlastGet
        (symbol_of_ne hnormal (List.mem_of_mem_getLast? hw) fun heq =>
          hnormal.last (by rw [hw, heq]))
      have hrange : rangeForMatch
          ⟨output.text.take n, output.starts.take n, output.ends.take n⟩ 0 n =
            some (start, stop) := by
        simp only [rangeForMatch, List.getElem?_take, if_pos hpositive,
          if_pos (show n - 1 < n by omega), hstart, hstop, Option.bind_eq_bind, Option.bind_some,
          if_neg (show ¬n ≤ 0 by omega)]
      have hread := h.ranges 0 n hpositive (by rw [hlength]) (fun ⟨_, _, hpos, _⟩ =>
        absurd hpos (Nat.lt_irrefl 0)) (fun ⟨_, after, _, _, hafter, _⟩ => by
          rw [List.getElem?_eq_none (by rw [hlength])] at hafter
          cases hafter) start stop hrange
      obtain ⟨before, after, hsplit, hbefore, htake, hcollapse⟩ :=
        hlocated.range_spec hpositive le_rfl hrange
      have hpart : Apart isSpaceUnit Item.value Item.isSvg
          (rangeItems start stop document.items) :=
        (collapse_filter_iff isSpaceUnit_space hoptional _).mp (hread.trans hcollapse.symm)
      rw [hsplit]
      refine hpart.of_part (hspaces _ ?_) (hspaces _ ?_)
      · rw [required_eq, ← hsymbols, List.length_eq_zero_iff.mp hbefore]
        rfl
      · have hvisited : visited document.items = visited before ++
            visited (rangeItems start stop document.items) ++ visited after := by
          conv => lhs; rw [hsplit]
          rw [visited_append, visited_append]
        rw [hvisited, List.map_append, List.filter_append, ← hsymbols, htake] at hall
        rw [required_eq]
        exact (List.self_eq_append_right.mp hall)
  · intro happart
    refine ⟨?_, ?_, hnormal, ?_, fun i j hij hj _ _ start stop hrange => ?_⟩
    · rw [List.length_take, List.length_take, hlocated.starts_length]
    · rw [List.length_take, List.length_take, hlocated.ends_length]
    · refine Sorted.take (hlocated.sorted ?_) n
      rw [pointsOf_visited]
      exact document.pairwise_items
    · dsimp only at hj
      rw [hlength] at hj
      obtain ⟨before, after, hsplit, -, -, hcollapse⟩ := hlocated.range_spec hij hj hrange
      rw [hsplit] at happart
      rw [readRange, (collapse_filter_iff isSpaceUnit_space hoptional _).mpr happart.part]
      exact hcollapse

/-! ### An SVG element within a word -/

/-- A message with an SVG element between two characters. -/
def svgDocument : Document where
  root := .element "DIV" [] [] [.text 0 [0x61], .svg, .text 1 [0x62]]
  ordered := by decide

/-- The two characters are one word of the projection, and are read with white space between. -/
theorem not_projects_svg :
    ¬Projects svgDocument (buildVisibleSearchText svgDocument.root) := by
  intro h
  have htext : (buildVisibleSearchText svgDocument.root).text = [0x61, 0x62] := rfl
  have hrange : rangeForMatch (buildVisibleSearchText svgDocument.root) 0 2 =
      some (⟨0, 0⟩, ⟨1, 1⟩) := rfl
  have hread := h.ranges 0 2 (by decide) (by rw [htext]; decide)
    (fun ⟨_, _, hpositive, _⟩ => absurd hpositive (by decide))
    (fun ⟨_, after, _, _, hafter, _⟩ => by
      rw [htext] at hafter
      cases hafter) _ _ hrange
  rw [htext] at hread
  exact absurd hread (by decide)

end IChat.Frontend
