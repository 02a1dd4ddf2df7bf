import Strata.Placement
import Strata.Proofs.Priorities
import Strata.Proofs.StableSort

/-!
# Where external entries go

An entry has a slot, the number of rules that it goes behind, and `slot_le_iff`
says which it is without the scan: an entry is in front of all rules from some
position on exactly if none of these holds it back. The rules may be in any order
of priorities, so slots need not follow priorities rule by rule; but a rule that
holds back an entry holds back every entry of a higher priority as well, and so
slots never fall as priorities rise. Sorting by slot and priority is therefore
sorting by priority.

`weave` emits an entry when its slot is the present position and only then. No
entry is missed, because the entries come in ascending slots and none has a slot
that is past: this is what the induction on the rules carries along, and it gives
at once the rules, the entries and which entries stand in front of each rule.
-/

namespace Strata.Placement

variable {α β : Type}

/-! ## The two sides of a sequence -/

/-- The rules of a sequence, in its order. -/
def rulesOf (steps : List (α ⊕ β)) : List α :=
  steps.filterMap Sum.getLeft?

/-- The entries of a sequence, in its order. -/
def entriesOf (steps : List (α ⊕ β)) : List β :=
  steps.filterMap Sum.getRight?

@[simp] theorem rulesOf_nil : rulesOf ([] : List (α ⊕ β)) = [] := rfl

@[simp] theorem rulesOf_inl (rule : α) (rest : List (α ⊕ β)) :
    rulesOf (.inl rule :: rest) = rule :: rulesOf rest := rfl

@[simp] theorem rulesOf_inr (entry : β) (rest : List (α ⊕ β)) :
    rulesOf (.inr entry :: rest) = rulesOf rest := rfl

@[simp] theorem rulesOf_append (front back : List (α ⊕ β)) :
    rulesOf (front ++ back) = rulesOf front ++ rulesOf back :=
  List.filterMap_append

@[simp] theorem entriesOf_nil : entriesOf ([] : List (α ⊕ β)) = [] := rfl

@[simp] theorem entriesOf_inl (rule : α) (rest : List (α ⊕ β)) :
    entriesOf (.inl rule :: rest) = entriesOf rest := rfl

@[simp] theorem entriesOf_inr (entry : β) (rest : List (α ⊕ β)) :
    entriesOf (.inr entry :: rest) = entry :: entriesOf rest := rfl

@[simp] theorem entriesOf_append (front back : List (α ⊕ β)) :
    entriesOf (front ++ back) = entriesOf front ++ entriesOf back :=
  List.filterMap_append

theorem mem_entriesOf {steps : List (α ⊕ β)} {entry : β} :
    entry ∈ entriesOf steps ↔ .inr entry ∈ steps := by
  induction steps with
  | nil => simp
  | cons step rest ih => cases step <;> simp [ih]

theorem mem_rulesOf {steps : List (α ⊕ β)} {rule : α} :
    rule ∈ rulesOf steps ↔ .inl rule ∈ steps := by
  induction steps with
  | nil => simp
  | cons step rest ih => cases step <;> simp [ih]

/-- Behind the last rule stand entries alone. -/
theorem exists_last_rule {steps : List (α ⊕ β)} {rule : α}
    (h : (rulesOf steps).getLast? = some rule) :
    ∃ before behind, steps = before ++ .inl rule :: behind ∧ rulesOf behind = [] := by
  obtain ⟨others, hothers⟩ := List.getLast?_eq_some_iff.mp h
  obtain ⟨first, second, rfl, -, hsecond⟩ := List.filterMap_eq_append_iff.mp hothers
  obtain ⟨between, step, behind, rfl, -, hstep, hbehind⟩ := List.filterMap_eq_cons_iff.mp hsecond
  cases Sum.getLeft?_eq_some_iff.mp hstep
  exact ⟨first ++ between, behind, (List.append_assoc _ _ _).symm, hbehind⟩

/-- A sequence of entries alone. -/
def emit (placed : List (Placed β)) : List (α ⊕ β) :=
  placed.map fun p => .inr p.entry

@[simp] theorem rulesOf_emit (placed : List (Placed β)) :
    rulesOf (emit placed : List (α ⊕ β)) = [] := by
  induction placed with
  | nil => rfl
  | cons first rest ih => exact ih

@[simp] theorem entriesOf_emit (placed : List (Placed β)) :
    entriesOf (emit placed : List (α ⊕ β)) = placed.map Placed.entry := by
  induction placed with
  | nil => rfl
  | cons first rest ih => exact congrArg (first.entry :: ·) ih

/-- What holds within the rules, within the entries and across each rule holds of
every pair of a sequence. -/
theorem pairwise_of_split {R : α ⊕ β → α ⊕ β → Prop} {steps : List (α ⊕ β)}
    (hrules : (rulesOf steps).Pairwise fun x y => R (.inl x) (.inl y))
    (hentries : (entriesOf steps).Pairwise fun x y => R (.inr x) (.inr y))
    (hacross : ∀ before rule behind, steps = before ++ .inl rule :: behind →
      (∀ entry ∈ entriesOf before, R (.inr entry) (.inl rule))
        ∧ ∀ entry ∈ entriesOf behind, R (.inl rule) (.inr entry)) :
    steps.Pairwise R := by
  induction steps with
  | nil => exact .nil
  | cons step rest ih =>
      cases step with
      | inl rule =>
          rw [rulesOf_inl, List.pairwise_cons] at hrules
          refine List.pairwise_cons.mpr ⟨?_, ih hrules.2 hentries ?_⟩
          · rintro (other | entry) hmem
            · exact hrules.1 other (mem_rulesOf.mpr hmem)
            · exact (hacross [] rule rest rfl).2 entry (mem_entriesOf.mpr hmem)
          · intro before other behind hsplit
            have h := hacross (.inl rule :: before) other behind (by rw [hsplit]; rfl)
            rwa [entriesOf_inl] at h
      | inr entry =>
          rw [entriesOf_inr, List.pairwise_cons] at hentries
          have hrest : ∀ before other behind, rest = before ++ .inl other :: behind →
              (∀ entry' ∈ entry :: entriesOf before, R (.inr entry') (.inl other))
                ∧ ∀ entry' ∈ entriesOf behind, R (.inl other) (.inr entry') := by
            intro before other behind hsplit
            have h := hacross (.inr entry :: before) other behind (by rw [hsplit]; rfl)
            rwa [entriesOf_inr] at h
          refine List.pairwise_cons.mpr ⟨?_, ih hrules hentries.2 ?_⟩
          · rintro (other | later) hmem
            · obtain ⟨before, behind, hsplit⟩ := List.append_of_mem hmem
              exact (hrest before other behind hsplit).1 entry List.mem_cons_self
            · exact hentries.1 later (mem_entriesOf.mpr hmem)
          · intro before other behind hsplit
            obtain ⟨hfront, hback⟩ := hrest before other behind hsplit
            exact ⟨fun entry' hentry => hfront entry' (List.mem_cons_of_mem _ hentry), hback⟩

/-! ## Slots -/

section Slot

variable {ties : TieBreak} {rules : List Binary64}

/-- A rule that holds back an entry holds back those of higher priorities. -/
theorem holdsBack_mono {p q rule : Binary64} (hq : q.isNaN = false)
    (hle : p.totalKey ≤ q.totalKey) (h : holdsBack ties p rule = true) :
    holdsBack ties q rule = true := by
  have hkeys := Binary64.numericKey_le_of_totalKey_le hle
  cases ties with
  | internalWins =>
      obtain ⟨hrule, -, hlt⟩ := Binary64.numericLt_iff.mp h
      exact Binary64.numericLt_iff.mpr ⟨hrule, hq, by omega⟩
  | externalWins =>
      obtain ⟨hrule, -, hlt⟩ := Binary64.numericLe_iff.mp h
      exact Binary64.numericLe_iff.mpr ⟨hrule, hq, by omega⟩

/-- A rule of a lower priority holds back an entry whoever wins ties. -/
theorem holdsBack_of_numericLt {entry rule : Binary64} (h : rule.numericLt entry = true) :
    holdsBack ties entry rule = true := by
  cases ties with
  | internalWins => exact h
  | externalWins => exact Binary64.numericLe_of_numericLt h

theorem slot_nil (entry : Binary64) : slot ties [] entry = 0 := rfl

theorem slot_cons (rule : Binary64) (rest : List Binary64) (entry : Binary64) :
    slot ties (rule :: rest) entry =
      if slot ties rest entry = 0 ∧ holdsBack ties entry rule = false then 0
      else slot ties rest entry + 1 := by
  let free (rule : Binary64) : Bool := !holdsBack ties entry rule
  have hlen := (List.takeWhile_sublist (l := rest.reverse) free).length_le
  rw [List.length_reverse] at hlen
  have hrest : slot ties rest entry
      = rest.length - (rest.reverse.takeWhile free).length := rfl
  have hcons : slot ties (rule :: rest) entry
      = rest.length + 1 - ((rest.reverse ++ [rule]).takeWhile free).length := by
    rw [slot, List.reverse_cons, List.length_cons]
  rw [hcons, hrest, List.takeWhile_append, List.length_reverse]
  by_cases hall : (rest.reverse.takeWhile free).length = rest.length
  · rw [if_pos hall, List.length_append, List.length_reverse]
    cases hrule : holdsBack ties entry rule with
    | false =>
        have hfree : [rule].takeWhile free = [rule] := by simp [free, hrule]
        rw [hfree, if_pos ⟨by omega, rfl⟩, List.length_singleton]
        omega
    | true =>
        have hheld : [rule].takeWhile free = [] := by simp [free, hrule]
        rw [hheld, if_neg (fun h => by cases h.2), List.length_nil]
        omega
  · rw [if_neg hall, if_neg (fun h => hall (by omega))]
    omega

/-- An entry stands in front of the rules from a position on exactly if none of
them holds it back. -/
theorem slot_le_iff {entry : Binary64} {position : Nat} :
    slot ties rules entry ≤ position ↔
      ∀ rule ∈ rules.drop position, holdsBack ties entry rule = false := by
  induction rules generalizing position with
  | nil => simp [slot_nil]
  | cons rule rest ih =>
      rw [slot_cons]
      cases position with
      | zero =>
          have hrest := @ih 0
          rw [List.drop_zero, Nat.le_zero] at hrest
          rw [List.drop_zero, List.forall_mem_cons, ← hrest]
          split
          · next h => exact ⟨fun _ => ⟨h.2, h.1⟩, fun _ => Nat.le_refl 0⟩
          · next h => exact ⟨fun hle => by omega, fun hboth => absurd ⟨hboth.2, hboth.1⟩ h⟩
      | succ position =>
          rw [List.drop_succ_cons, ← ih]
          split
          · next h => exact ⟨fun _ => by omega, fun _ => Nat.zero_le _⟩
          · exact Nat.succ_le_succ_iff

theorem slot_mono {p q : Binary64} (hq : q.isNaN = false) (hle : p.totalKey ≤ q.totalKey) :
    slot ties rules p ≤ slot ties rules q := by
  refine slot_le_iff.mpr fun rule hrule => ?_
  have hnot := slot_le_iff.mp (Nat.le_refl (slot ties rules q)) rule hrule
  cases hheld : holdsBack ties p rule with
  | false => rfl
  | true =>
      rw [holdsBack_mono hq hle hheld] at hnot
      cases hnot

end Slot

/-! ## Weaving -/

section Weave

variable {placed : List (Placed β)}

theorem weave_cons (position : Nat) (rule : α) (rest : List α) :
    weave position (rule :: rest) placed =
      emit (placed.takeWhile fun p => p.slot = position)
        ++ .inl rule :: weave (position + 1) rest (placed.dropWhile fun p => p.slot = position) :=
  rfl

theorem rulesOf_weave (position : Nat) (rules : List α) :
    rulesOf (weave position rules placed) = rules := by
  induction rules generalizing position placed with
  | nil => exact rulesOf_emit placed
  | cons rule rest ih =>
      rw [weave_cons, rulesOf_append, rulesOf_emit, rulesOf_inl, ih, List.nil_append]

theorem entriesOf_weave (position : Nat) (rules : List α) :
    entriesOf (weave position rules placed) = placed.map Placed.entry := by
  induction rules generalizing position placed with
  | nil => exact entriesOf_emit placed
  | cons rule rest ih =>
      rw [weave_cons, entriesOf_append, entriesOf_emit, entriesOf_inl, ih, ← List.map_append,
        List.takeWhile_append_dropWhile]

/-- What is left when the entries of a position are emitted has later slots. -/
theorem lt_slot_of_mem_dropWhile {position : Nat}
    (hsorted : placed.Pairwise fun x y => x.slot ≤ y.slot)
    (hlow : ∀ p ∈ placed, position ≤ p.slot) :
    ∀ p ∈ placed.dropWhile fun p => p.slot = position, position < p.slot := by
  induction placed with
  | nil => exact List.forall_mem_nil _
  | cons first rest ih =>
      obtain ⟨hfirst, hrest⟩ := List.pairwise_cons.mp hsorted
      have hlowFirst := hlow first List.mem_cons_self
      by_cases hslot : first.slot = position
      · rw [List.dropWhile_cons_of_pos (by simpa using hslot)]
        exact ih hrest fun p hp => hlow p (List.mem_cons_of_mem _ hp)
      · rw [List.dropWhile_cons_of_neg (by simpa using hslot)]
        refine List.forall_mem_cons.mpr ⟨by omega, fun p hp => ?_⟩
        have := hfirst p hp
        omega

/-- A rule behind emitted entries is the first one there or a later one. -/
theorem split_emit {here : List (Placed β)} {first rule : α}
    {tail before behind : List (α ⊕ β)}
    (h : emit here ++ .inl first :: tail = before ++ .inl rule :: behind) :
    before = emit here
      ∨ ∃ between, before = emit here ++ .inl first :: between
        ∧ tail = between ++ .inl rule :: behind := by
  induction here generalizing before with
  | nil =>
      cases before with
      | nil => exact .inl rfl
      | cons step between =>
          obtain ⟨rfl, htail⟩ := List.cons.inj h
          exact .inr ⟨between, rfl, htail⟩
  | cons p here ih =>
      cases before with
      | nil => cases (List.cons.inj h).1
      | cons step between =>
          obtain ⟨rfl, hrest⟩ := List.cons.inj h
          rcases ih hrest with rfl | ⟨between, rfl, htail⟩
          · exact .inl rfl
          · exact .inr ⟨between, rfl, htail⟩

/-- In front of a rule stand the entries whose slots it has reached, in their order. -/
theorem entriesOf_before_rule {position : Nat} {rules : List α}
    (hsorted : placed.Pairwise fun x y => x.slot ≤ y.slot)
    (hlow : ∀ p ∈ placed, position ≤ p.slot)
    {before behind : List (α ⊕ β)} {rule : α}
    (hsplit : weave position rules placed = before ++ .inl rule :: behind) :
    entriesOf before =
      (placed.filter fun p => p.slot ≤ position + (rulesOf before).length).map Placed.entry := by
  induction rules generalizing position placed before with
  | nil =>
      have hrules := congrArg rulesOf hsplit
      rw [rulesOf_weave, rulesOf_append, rulesOf_inl] at hrules
      simp at hrules
  | cons first rest ih =>
      have hhere : ∀ p ∈ placed.takeWhile fun p => p.slot = position, p.slot = position :=
        fun p hp => by simpa using List.all_eq_true.mp List.all_takeWhile p hp
      have hlater := lt_slot_of_mem_dropWhile hsorted hlow
      have hsortedLater := hsorted.sublist
        (List.dropWhile_sublist fun p : Placed β => decide (p.slot = position))
      -- The entries of this position go in front of every rule from here on.
      have hfilter : ∀ bound, position ≤ bound →
          placed.filter (fun p => p.slot ≤ bound) =
            (placed.takeWhile fun p => p.slot = position)
              ++ (placed.dropWhile fun p => p.slot = position).filter
                fun p => p.slot ≤ bound := by
        intro bound hbound
        conv => lhs; rw [← List.takeWhile_append_dropWhile (l := placed)
          (p := fun p => decide (p.slot = position)), List.filter_append]
        congr 1
        refine List.filter_eq_self.mpr fun p hp => ?_
        have := hhere p hp
        simpa using by omega
      rw [weave_cons] at hsplit
      rcases split_emit hsplit with rfl | ⟨between, rfl, htail⟩
      · have hnone : (placed.dropWhile fun p => p.slot = position).filter
            (fun p => p.slot ≤ position) = [] := by
          refine List.filter_eq_nil_iff.mpr fun p hp => ?_
          have := hlater p hp
          simpa using by omega
        rw [entriesOf_emit, rulesOf_emit, List.length_nil, Nat.add_zero,
          hfilter position (Nat.le_refl _), hnone, List.append_nil]
      · have hbetween := ih hsortedLater hlater htail
        rw [entriesOf_append, entriesOf_emit, entriesOf_inl, hbetween, rulesOf_append,
          rulesOf_emit, List.nil_append, rulesOf_inl, List.length_cons,
          hfilter _ (by omega), List.map_append, Nat.succ_add_eq_add_succ]

end Weave

/-- Rules are woven in whatever they are. -/
theorem weave_map {γ : Type} (f : α → γ) (position : Nat) (rules : List α)
    (placed : List (Placed β)) :
    weave position (rules.map f) placed = (weave position rules placed).map (Sum.map f id) := by
  have hemit : ∀ placed : List (Placed β),
      (emit placed : List (α ⊕ β)).map (Sum.map f id) = emit placed := by
    intro placed
    rw [emit, List.map_map]
    rfl
  induction rules generalizing position placed with
  | nil => exact (hemit placed).symm
  | cons rule rest ih =>
      rw [List.map_cons, weave_cons, weave_cons, ih, List.map_append, hemit]
      rfl

/-! ## The whole sequence -/

theorem Placed.le_iff {x y : Placed β} :
    x.le y = true ↔ x.slot < y.slot
      ∨ x.slot = y.slot ∧ x.priority.totalKey ≤ y.priority.totalKey := by
  rw [Placed.le, Ordering.isLE_then_iff_or, Nat.compare_eq_lt, Nat.compare_eq_eq,
    Binary64.isLE_compareTotal]

theorem Placed.le_trans (x y z : Placed β) (hxy : x.le y = true) (hyz : y.le z = true) :
    x.le z = true := by
  rw [Placed.le_iff] at hxy hyz ⊢
  omega

theorem Placed.le_total (x y : Placed β) : (x.le y || y.le x) = true := by
  rw [Bool.or_eq_true, Placed.le_iff, Placed.le_iff]
  omega

section Interleave

variable {ties : TieBreak} {rulePriority : α → Binary64} {entryPriority : β → Binary64}
  {rules : List α} {entries : List β}

/-- An entry with its slot among the rules. -/
def placedAt (ties : TieBreak) (rulePriority : α → Binary64) (entryPriority : β → Binary64)
    (rules : List α) (entry : β) : Placed β where
  slot := slot ties (rules.map rulePriority) (entryPriority entry)
  priority := entryPriority entry
  entry := entry

/-- The entries in the order in which they are woven in. -/
def arranged (ties : TieBreak) (rulePriority : α → Binary64) (entryPriority : β → Binary64)
    (rules : List α) (entries : List β) : List (Placed β) :=
  (entries.map (placedAt ties rulePriority entryPriority rules)).mergeSort Placed.le

theorem interleave_eq :
    interleave ties rulePriority entryPriority rules entries
      = weave 0 rules (arranged ties rulePriority entryPriority rules entries) := rfl

theorem mem_arranged {p : Placed β} :
    p ∈ arranged ties rulePriority entryPriority rules entries ↔
      ∃ entry ∈ entries, placedAt ties rulePriority entryPriority rules entry = p := by
  rw [arranged, List.mem_mergeSort, List.mem_map]

theorem pairwise_le_arranged :
    (arranged ties rulePriority entryPriority rules entries).Pairwise fun x y =>
      x.le y = true :=
  List.pairwise_mergeSort Placed.le_trans Placed.le_total _

theorem pairwise_slot_arranged :
    (arranged ties rulePriority entryPriority rules entries).Pairwise fun x y =>
      x.slot ≤ y.slot := by
  refine pairwise_le_arranged.imp fun hle => ?_
  rw [Placed.le_iff] at hle
  omega

/-- Where entries go among rules depends on the priorities of these alone. -/
theorem interleave_map {γ : Type} {f : α → γ} {otherPriority : γ → Binary64}
    (h : ∀ rule, otherPriority (f rule) = rulePriority rule) :
    interleave ties otherPriority entryPriority (rules.map f) entries
      = (interleave ties rulePriority entryPriority rules entries).map (Sum.map f id) := by
  have hpriorities : (rules.map f).map otherPriority = rules.map rulePriority := by
    rw [List.map_map]
    exact List.map_congr_left fun rule _ => h rule
  have hplaced : placedAt ties otherPriority entryPriority (rules.map f)
      = placedAt ties rulePriority entryPriority rules := by
    funext entry
    rw [placedAt, placedAt, hpriorities]
  rw [interleave_eq, interleave_eq, arranged, arranged, hplaced, weave_map]

theorem rulesOf_interleave :
    rulesOf (interleave ties rulePriority entryPriority rules entries) = rules := by
  rw [interleave_eq, rulesOf_weave]

theorem entriesOf_interleave_perm :
    (entriesOf (interleave ties rulePriority entryPriority rules entries)).Perm entries := by
  rw [interleave_eq, entriesOf_weave]
  have hperm := (List.mergeSort_perm
    (entries.map (placedAt ties rulePriority entryPriority rules)) Placed.le).map Placed.entry
  rw [List.map_map] at hperm
  exact hperm.trans (List.Perm.of_eq (List.map_id entries))

/-- Entries come in the total order of their priorities and, where these are the
same, in the order in which they were given. -/
theorem pairwise_entriesOf_interleave {R : β → β → Prop} (h : entries.Pairwise R)
    (hnumbers : ∀ entry ∈ entries, (entryPriority entry).isNaN = false) :
    (entriesOf (interleave ties rulePriority entryPriority rules entries)).Pairwise fun x y =>
      (entryPriority x).totalKey < (entryPriority y).totalKey
        ∨ (entryPriority x).totalKey = (entryPriority y).totalKey ∧ R x y := by
  rw [interleave_eq, entriesOf_weave, List.pairwise_map]
  have hgiven : (entries.map (placedAt ties rulePriority entryPriority rules)).Pairwise
      fun x y => R x.entry y.entry := List.pairwise_map.mpr h
  have hsorted := pairwise_mergeSort_stablyBefore Placed.le_trans Placed.le_total hgiven
  refine hsorted.imp_of_mem fun {x y} hx hy hstable => ?_
  obtain ⟨first, hfirst, rfl⟩ := mem_arranged.mp hx
  obtain ⟨second, -, rfl⟩ := mem_arranged.mp hy
  obtain ⟨hle, htie⟩ := hstable
  rw [Placed.le_iff] at hle htie
  simp only [placedAt] at hle htie ⊢
  -- A lower priority has no later slot, so a later slot means a higher priority.
  have hmono := @slot_mono ties (rules.map rulePriority) (entryPriority second)
    (entryPriority first) (hnumbers first hfirst)
  by_cases hkey : (entryPriority first).totalKey < (entryPriority second).totalKey
  · exact .inl hkey
  · have hback := hmono (by omega)
    exact .inr ⟨by omega, htie (by omega)⟩

/-- An entry stands in front of a rule exactly if none of the rules from this one
on holds it back. -/
theorem mem_entriesOf_before_iff {before behind : List (α ⊕ β)} {rule : α}
    (hsplit : interleave ties rulePriority entryPriority rules entries
      = before ++ .inl rule :: behind) {entry : β} (hentry : entry ∈ entries) :
    entry ∈ entriesOf before ↔
      ∀ other ∈ rule :: rulesOf behind,
        holdsBack ties (entryPriority entry) (rulePriority other) = false := by
  have hrules : rules = rulesOf before ++ rule :: rulesOf behind := by
    rw [← rulesOf_inl, ← rulesOf_append, ← hsplit, rulesOf_interleave]
  have hbefore := entriesOf_before_rule pairwise_slot_arranged
    (fun p _ => Nat.zero_le p.slot) (interleave_eq.symm.trans hsplit)
  have hreached : entry ∈ entriesOf before ↔
      slot ties (rules.map rulePriority) (entryPriority entry) ≤ (rulesOf before).length := by
    rw [hbefore, List.mem_map, Nat.zero_add]
    constructor
    · rintro ⟨p, hp, rfl⟩
      obtain ⟨hmem, hle⟩ := List.mem_filter.mp hp
      obtain ⟨found, -, rfl⟩ := mem_arranged.mp hmem
      exact of_decide_eq_true hle
    · intro hle
      exact ⟨placedAt ties rulePriority entryPriority rules entry, List.mem_filter.mpr
        ⟨mem_arranged.mpr ⟨entry, hentry, rfl⟩, decide_eq_true hle⟩, rfl⟩
  rw [hreached, slot_le_iff]
  conv => lhs; rw [hrules, ← List.map_drop, List.drop_left, List.forall_mem_map]

end Interleave

end Strata.Placement
