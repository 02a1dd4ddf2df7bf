import Mathlib
import Strata.Proofs.Ancestry

/-!
# Climbing any table

Metadata need not come from a registry. In a table of descriptors an ancestor may be an
instance or unknown, and the ancestors may go round in a circle, which need not lead through
the module that the walk began with. `ancestorAt` follows the recorded ancestors and does not
look back, so it may go on for ever; the walk stops where there is none, or at an id that it
has passed, and `Ends` says which and after how many steps.

It always stops in time. The walk has passed each id once, and all of them but the topmost
have an ancestor and therefore a descriptor, of which the table has only so many. If it stops
at the top there is nothing above, so nothing is ever met again; if it stops at an id that it
has passed, that id is met twice. So the two ways to end are told apart by `Revisits`, which
does not mention the walk.
-/

namespace Strata.Metadata

variable {metadata : Metadata} {id : String}

/-! ## Following ancestors -/

/-- What is reached by following so many recorded ancestors. -/
def ancestorAt (metadata : Metadata) (id : String) : Nat → Option String
  | 0 => some id
  | steps + 1 => (metadata.ancestorAt id steps).bind metadata.ancestor?

/-- Following the recorded ancestors comes back to an id that was there before. -/
def Revisits (metadata : Metadata) (id : String) : Prop :=
  ∃ earlier later again, earlier < later
    ∧ metadata.ancestorAt id earlier = some again ∧ metadata.ancestorAt id later = some again

/-- All that is reached in so many steps, the last one first. -/
def climbed (metadata : Metadata) (id : String) : Nat → List String
  | 0 => [id]
  | steps + 1 => (metadata.ancestorAt id (steps + 1)).toList ++ metadata.climbed id steps

theorem climbed_succ {steps : Nat} {ancestor : String}
    (h : metadata.ancestorAt id (steps + 1) = some ancestor) :
    metadata.climbed id (steps + 1) = ancestor :: metadata.climbed id steps := by
  rw [climbed, h, Option.toList_some, List.singleton_append]

theorem head?_climbed {steps : Nat} {last : String}
    (h : metadata.ancestorAt id steps = some last) :
    (metadata.climbed id steps).head? = some last := by
  cases steps with
  | zero => exact h
  | succ steps => rw [climbed_succ h, List.head?_cons]

theorem ancestorAt_of_le {steps more : Nat} {ancestor : String} (hle : steps ≤ more)
    (h : metadata.ancestorAt id more = some ancestor) :
    ∃ below, metadata.ancestorAt id steps = some below := by
  induction more generalizing ancestor with
  | zero => exact ⟨ancestor, by rwa [Nat.le_zero.mp hle]⟩
  | succ more ih =>
      rcases Nat.le_succ_iff.mp hle with hle | rfl
      · obtain ⟨below, hbelow, -⟩ := Option.bind_eq_some_iff.mp h
        exact ih hle hbelow
      · exact ⟨ancestor, h⟩

theorem length_climbed {steps : Nat} {last : String}
    (h : metadata.ancestorAt id steps = some last) :
    (metadata.climbed id steps).length = steps + 1 := by
  induction steps generalizing last with
  | zero => rfl
  | succ steps ih =>
      obtain ⟨below, hbelow⟩ := ancestorAt_of_le (Nat.le_succ steps) h
      rw [climbed_succ h, List.length_cons, ih hbelow]

/-- Each is the recorded ancestor of the one that was reached before it. -/
theorem isChain_climbed {steps : Nat} {last : String}
    (h : metadata.ancestorAt id steps = some last) :
    (metadata.climbed id steps).IsChain fun above below =>
      metadata.ancestor? below = some above := by
  induction steps generalizing last with
  | zero => exact List.isChain_singleton id
  | succ steps ih =>
      obtain ⟨below, hbelow⟩ := ancestorAt_of_le (Nat.le_succ steps) h
      rw [climbed_succ h, List.isChain_cons, head?_climbed hbelow]
      refine ⟨fun other hother => ?_, ih hbelow⟩
      cases hother
      rwa [ancestorAt, hbelow, Option.bind_some] at h

theorem climbed_suffix {steps more : Nat} (hle : steps ≤ more) :
    metadata.climbed id steps <:+ metadata.climbed id more := by
  induction more with
  | zero => rw [Nat.le_zero.mp hle]
  | succ more ih =>
      rcases Nat.le_succ_iff.mp hle with hle | rfl
      · exact (ih hle).trans (List.suffix_append _ _)
      · exact List.suffix_rfl

theorem mem_climbed_iff {steps : Nat} {other : String} :
    other ∈ metadata.climbed id steps ↔
      ∃ earlier ≤ steps, metadata.ancestorAt id earlier = some other := by
  induction steps with
  | zero =>
      simp only [climbed, List.mem_singleton, Nat.le_zero, exists_eq_left, ancestorAt,
        Option.some.injEq, eq_comm]
  | succ steps ih =>
      simp only [climbed, List.mem_append, Option.mem_toList, ih, Nat.le_succ_iff]
      constructor
      · intro h
        rcases h with hlast | ⟨earlier, hle, hearlier⟩
        · exact ⟨steps + 1, .inr rfl, hlast⟩
        · exact ⟨earlier, .inl hle, hearlier⟩
      · intro h
        obtain ⟨earlier, hle | rfl, hearlier⟩ := h
        · exact .inr ⟨earlier, hle, hearlier⟩
        · exact .inl hearlier

/-! ## How the walk ends -/

/-- After so many steps there is no ancestor, or one that was passed on the way and that
nothing before it was. -/
inductive Ends (metadata : Metadata) (id : String) (steps : Nat) : Outcome (List String) → Prop
  | atTop (hnodup : (metadata.climbed id steps).Nodup)
      (h : metadata.ancestorAt id (steps + 1) = none) :
      Ends metadata id steps (.ok (metadata.climbed id steps))
  | again {ancestor : String} (hnodup : (metadata.climbed id steps).Nodup)
      (h : metadata.ancestorAt id (steps + 1) = some ancestor)
      (hpassed : ancestor ∈ metadata.climbed id steps) :
      Ends metadata id steps (.error (.ancestryCyclic id ancestor))

theorem Ends.nodup {steps : Nat} {result : Outcome (List String)}
    (h : metadata.Ends id steps result) : (metadata.climbed id steps).Nodup := by
  cases h with
  | atTop hnodup _ => exact hnodup
  | again hnodup _ _ => exact hnodup

theorem exists_ends_of_walk {steps : Nat} {chain : List String} {next : Option String}
    {below : String} (hchain : chain = metadata.climbed id steps)
    (hnext : next = metadata.ancestorAt id (steps + 1))
    (hbelow : metadata.ancestorAt id steps = some below) (hnodup : chain.Nodup) :
    ∃ more, (∃ last, metadata.ancestorAt id more = some last)
      ∧ metadata.Ends id more (metadata.walk id chain next) := by
  fun_induction Metadata.walk metadata id chain next generalizing steps below with
  | case1 chain =>
      subst hchain
      exact ⟨steps, ⟨below, hbelow⟩, .atTop hnodup hnext.symm⟩
  | case2 chain ancestor hmem =>
      subst hchain
      exact ⟨steps, ⟨below, hbelow⟩, .again hnodup hnext.symm hmem⟩
  | case3 chain ancestor hnew ih =>
      have habove : metadata.ancestor? ancestor = metadata.ancestorAt id (steps + 1 + 1) := by
        rw [ancestorAt, ← hnext, Option.bind_some]
      exact ih (by rw [climbed_succ hnext.symm, hchain]) habove hnext.symm
        (List.nodup_cons.mpr ⟨hnew, hnodup⟩)

theorem mem_described_of_ancestor? {other above : String}
    (h : metadata.ancestor? other = some above) : other ∈ metadata.described := by
  obtain ⟨descriptor, hdescribe, -⟩ := Option.bind_eq_some_iff.mp h
  exact metadata.mem_described other (Option.isSome_of_eq_some hdescribe)

/-- What is climbed without repetition is described, but for its top, so it is not long. -/
theorem le_length_described {steps : Nat} {last : String}
    (hlast : metadata.ancestorAt id steps = some last)
    (hnodup : (metadata.climbed id steps).Nodup) : steps ≤ metadata.described.length := by
  cases steps with
  | zero => exact Nat.zero_le _
  | succ steps =>
      rw [climbed_succ hlast] at hnodup
      have hbelow : metadata.climbed id steps ⊆ metadata.described := by
        intro other hmem
        obtain ⟨earlier, hle, hearlier⟩ := mem_climbed_iff.mp hmem
        obtain ⟨above, habove⟩ := ancestorAt_of_le (Nat.succ_le_succ hle) hlast
        rw [ancestorAt, hearlier, Option.bind_some] at habove
        exact mem_described_of_ancestor? habove
      obtain ⟨below, hreached⟩ := ancestorAt_of_le (Nat.le_succ steps) hlast
      rw [← length_climbed hreached]
      exact ((List.nodup_cons.mp hnodup).2.subperm hbelow).length_le

/-! ## Both ways to end -/

theorem not_revisits_of_top {steps : Nat} (hnodup : (metadata.climbed id steps).Nodup)
    (htop : metadata.ancestorAt id (steps + 1) = none) : ¬ metadata.Revisits id := by
  intro h
  obtain ⟨earlier, later, again, hlt, hearlier, hlater⟩ := h
  have hle : later ≤ steps := by
    by_contra hgt
    obtain ⟨above, habove⟩ := ancestorAt_of_le (show steps + 1 ≤ later by omega) hlater
    rw [htop] at habove
    cases habove
  obtain ⟨before, rfl⟩ : ∃ before, later = before + 1 := ⟨later - 1, by omega⟩
  have hagain := hnodup.sublist (climbed_suffix hle).sublist
  rw [climbed_succ hlater] at hagain
  exact (List.nodup_cons.mp hagain).1 (mem_climbed_iff.mpr ⟨earlier, by omega, hearlier⟩)

theorem revisits_of_again {steps : Nat} {ancestor : String}
    (h : metadata.ancestorAt id (steps + 1) = some ancestor)
    (hpassed : ancestor ∈ metadata.climbed id steps) : metadata.Revisits id := by
  obtain ⟨earlier, hle, hearlier⟩ := mem_climbed_iff.mp hpassed
  exact ⟨earlier, steps + 1, ancestor, by omega, hearlier, h⟩

/-- The walk of a type ends after no more steps than there are descriptors. -/
theorem exists_ends {descriptor : Descriptor} (hdescribe : metadata.describe? id = some descriptor)
    (hkind : descriptor.kind = .typeModule) :
    ∃ steps ≤ metadata.described.length, (∃ last, metadata.ancestorAt id steps = some last)
      ∧ metadata.Ends id steps (metadata.chain id) := by
  have hnext : descriptor.ancestor = metadata.ancestorAt id (0 + 1) := by
    rw [ancestorAt, ancestorAt, Option.bind_some, ancestor?, hdescribe, Option.bind_some]
  have hchain :
      metadata.chain id = metadata.walk id (metadata.climbed id 0) descriptor.ancestor := by
    simp only [chain, hdescribe, hkind, climbed]
  obtain ⟨steps, ⟨last, hlast⟩, h⟩ :=
    exists_ends_of_walk rfl hnext rfl (List.nodup_singleton id)
  rw [← hchain] at h
  exact ⟨steps, le_length_described hlast h.nodup, ⟨last, hlast⟩, h⟩

/-- Whatever a table records, an id that it does not know or that is an instance is its own
chain. The walk of a type ends after no more steps than there are descriptors. It is refused,
as an invalid argument, exactly if following the recorded ancestors comes back to an id.
Otherwise there is a chain: it repeats nothing, ends with the type, has the recorded ancestor
of each of its ids in front of it, and begins with an id that has none. -/
theorem chain_of_any_table (metadata : Metadata) (id : String) :
    ((∀ descriptor, metadata.describe? id = some descriptor → descriptor.kind ≠ .typeModule) →
      metadata.chain id = .ok [id])
    ∧ ∀ descriptor, metadata.describe? id = some descriptor → descriptor.kind = .typeModule →
      (∃ steps ≤ metadata.described.length, metadata.Ends id steps (metadata.chain id))
      ∧ ((∃ fault, metadata.chain id = .error fault ∧ fault.kind = .argumentInvalid)
        ↔ metadata.Revisits id)
      ∧ ((∃ chain, metadata.chain id = .ok chain) ↔ ¬ metadata.Revisits id)
      ∧ ∀ chain, metadata.chain id = .ok chain →
        chain.Nodup ∧ chain.getLast? = some id
        ∧ (chain.IsChain fun above below => metadata.ancestor? below = some above)
        ∧ ∀ first, chain.head? = some first → metadata.ancestor? first = none := by
  refine ⟨fun hother => ?_, fun descriptor hdescribe hkind => ?_⟩
  · rw [chain]
    split
    · next descriptor hdescribe =>
        split
        · next hkind => exact absurd hkind (hother descriptor hdescribe)
        · rfl
    · rfl
  obtain ⟨steps, hle, ⟨last, hlast⟩, h⟩ := exists_ends hdescribe hkind
  refine ⟨⟨steps, hle, h⟩, ?_⟩
  generalize hresult : metadata.chain id = result at h
  cases h with
  | atTop hnodup htop =>
      have hnever := not_revisits_of_top hnodup htop
      refine ⟨iff_of_false ?_ hnever, iff_of_true ⟨_, rfl⟩ hnever, fun found hfound => ?_⟩
      · intro h
        obtain ⟨fault, hfault, -⟩ := h
        cases hfault
      · cases hfound
        refine ⟨hnodup, ?_, isChain_climbed hlast, fun first hfirst => ?_⟩
        · exact (List.singleton_suffix_iff_getLast?_eq_some).mp
            (climbed_suffix (Nat.zero_le steps))
        · rw [head?_climbed hlast] at hfirst
          cases hfirst
          rwa [ancestorAt, hlast, Option.bind_some] at htop
  | again hnodup hagain hpassed =>
      have hmet := revisits_of_again hagain hpassed
      refine ⟨iff_of_true ⟨_, rfl, rfl⟩ hmet, iff_of_false ?_ (not_not_intro hmet), ?_⟩
      · intro h
        obtain ⟨found, hfound⟩ := h
        cases hfound
      · intro found hfound
        cases hfound

/-- The type under an instance leads into a circle that it is not on itself. The ancestor of
the other one is unknown. -/
def winding : Metadata :=
  .ofTables [] [("bend", ⟨"bend", .typeModule, some "turn", none⟩),
    ("branch", ⟨"branch", .instanceModule, some "bend", none⟩),
    ("leaf", ⟨"leaf", .typeModule, some "branch", none⟩),
    ("stray", ⟨"stray", .typeModule, some "gone", none⟩),
    ("turn", ⟨"turn", .typeModule, some "bend", none⟩)]

theorem winding_revisits :
    (winding.chain "leaf" = .error (.ancestryCyclic "leaf" "bend") ∧ winding.Revisits "leaf")
    ∧ winding.chain "stray" = .ok ["gone", "stray"] ∧ ¬ winding.Revisits "stray" := by
  have hleaf : winding.chain "leaf" = .error (.ancestryCyclic "leaf" "bend") := by cbv
  have hstray : winding.chain "stray" = .ok ["gone", "stray"] := by cbv
  exact ⟨⟨hleaf, ((chain_of_any_table winding "leaf").2 _ rfl rfl).2.1.mp ⟨_, hleaf, rfl⟩⟩,
    hstray, ((chain_of_any_table winding "stray").2 _ rfl rfl).2.2.1.mp ⟨_, hstray⟩⟩

end Strata.Metadata
