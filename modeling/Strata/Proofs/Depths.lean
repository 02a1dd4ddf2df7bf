import Mathlib.Order.Bounds.Defs
import Strata.Proofs.References

/-!
# How deep a reference leads

Following a reference pops segments and pushes names, and does not tell apart whose
segment it pops. How many there are to pop is a count: it begins with the slashes of the
context id, falls by one at each `..` and rises by one at each name. So where the
reference escapes, and where it leads to nothing, can be read off the count alone.

The segments can too. What is left of the directory is what the count never fell below,
and what is left of the names are those behind which it never falls to where they stood.
The induction is over the parts, for a trail of any length: a name makes the trail longer by
one, and the least count behind it says whether that one is left.
-/

namespace Strata

namespace Text

theorem length_runsBetween (separator : Char) (cs : List Char) :
    (runsBetween separator cs).length = cs.count separator + 1 := by
  induction cs with
  | nil => rfl
  | cons c rest ih =>
      rw [runsBetween]
      split
      · next hc => rw [hc, List.length_cons, ih, List.count_cons_self]
      · next hc =>
          rw [List.count_cons_of_ne hc, ← ih]
          split
          · next hnil => exact absurd hnil (runsBetween_ne_nil separator rest)
          · next hruns => rw [hruns, List.length_cons, List.length_cons]

end Text

namespace Reference

theorem length_directory (id : String) : (directory id).length = id.toList.count '/' := by
  rw [directory, List.length_dropLast, segments, Text.pieces, List.length_map,
    Text.length_runsBetween, Nat.add_sub_cancel]

/-! ## The count -/

/-- What a part adds to the depth. -/
def change (part : String) : Int :=
  if part = "" ∨ part = "." then 0 else if part = ".." then -1 else 1

/-- The depths that are passed from a start on. -/
def depths (start : Int) : List String → List Int
  | [] => [start]
  | part :: rest => start :: depths (start + change part) rest

/-- The names among the parts, without those that a later `..` takes back: behind such a
name the depth falls below the one that the name led to. -/
def kept : List String → List String
  | [] => []
  | part :: rest =>
    if change part = 1 ∧ ∀ depth ∈ depths 0 rest, 0 ≤ depth then part :: kept rest
    else kept rest

section Depths

variable {start : Int} {part : String} {parts rest : List String}

theorem start_mem_depths : start ∈ depths start parts := by
  cases parts <;> exact List.mem_cons_self

theorem depths_add (start more : Int) (parts : List String) :
    depths (start + more) parts = (depths start parts).map (· + more) := by
  induction parts generalizing start with
  | nil => rfl
  | cons part rest ih =>
      rw [depths, depths, List.map_cons, ← ih, Int.add_right_comm]

theorem forall_mem_depths_iff (start : Int) (parts : List String) :
    (∀ depth ∈ depths start parts, start ≤ depth) ↔ ∀ depth ∈ depths 0 parts, 0 ≤ depth := by
  have hshift := depths_add 0 start parts
  rw [Int.zero_add] at hshift
  simp only [hshift, List.forall_mem_map]
  constructor
  · intro h depth hmem
    have := h depth hmem
    omega
  · intro h depth hmem
    have := h depth hmem
    omega

theorem getLast?_depths_cons :
    (depths start (part :: rest)).getLast? = (depths (start + change part) rest).getLast? := by
  rw [depths]
  cases rest <;> rfl

end Depths

/-! ## The parts that are followed -/

/-- A part stays, leaves or enters. -/
theorem part_cases (part : String) :
    (change part = 0 ∧ ∀ trail rest, follow trail (part :: rest) = follow trail rest)
    ∨ (change part = -1 ∧ (∀ rest, follow [] (part :: rest) = none)
      ∧ ∀ segment outer rest, follow (segment :: outer) (part :: rest) = follow outer rest)
    ∨ (change part = 1
      ∧ ∀ trail rest, follow trail (part :: rest) = follow (part :: trail) rest) := by
  by_cases hstays : part = "" ∨ part = "."
  · exact .inl ⟨if_pos hstays, fun trail rest => by simp [follow, hstays]⟩
  · by_cases hleaves : part = ".."
    · exact .inr (.inl ⟨by simp [change, hleaves], fun rest => by simp [follow, hleaves],
        fun segment outer rest => by simp [follow, hleaves]⟩)
    · exact .inr (.inr ⟨by simp [change, hstays, hleaves],
        fun trail rest => by simp [follow, hstays, hleaves]⟩)

/-- The outermost directory is left where the depth falls below zero. -/
theorem follow_eq_none_iff {trail parts : List String} :
    follow trail parts = none ↔ ∃ depth ∈ depths trail.length parts, depth < 0 := by
  induction parts generalizing trail with
  | nil => simp [follow, depths]
  | cons part rest ih =>
      have hhere : (∃ depth ∈ depths trail.length (part :: rest), depth < 0) ↔
          ∃ depth ∈ depths (trail.length + change part) rest, depth < 0 := by
        simp only [depths, List.mem_cons, exists_eq_or_imp]
        exact or_iff_right (by omega)
      rw [hhere]
      rcases part_cases part with ⟨hchange, hfollow⟩ | ⟨hchange, hescape, hfollow⟩ |
        ⟨hchange, hfollow⟩
      · rw [hfollow, ih, hchange, Int.add_zero]
      · rw [hchange]
        cases trail with
        | nil => exact iff_of_true (hescape rest) ⟨_, start_mem_depths, by decide⟩
        | cons segment outer =>
            rw [hfollow, ih, List.length_cons]
            have hdepth : ((outer.length + 1 : Nat) : Int) + -1 = outer.length := by omega
            rw [hdepth]
      · rw [hfollow, ih, hchange, List.length_cons]
        rfl

/-- Where the depth stays above zero, it ends at the number of segments. -/
theorem getLast?_depths_of_follow {trail parts reached : List String}
    (h : follow trail parts = some reached) :
    (depths trail.length parts).getLast? = some (reached.length : Int) := by
  induction parts generalizing trail with
  | nil =>
      cases h
      rfl
  | cons part rest ih =>
      rw [getLast?_depths_cons]
      rcases part_cases part with ⟨hchange, hfollow⟩ | ⟨hchange, hescape, hfollow⟩ |
        ⟨hchange, hfollow⟩
      · rw [hfollow] at h
        rw [hchange, Int.add_zero, ih h]
      · cases trail with
        | nil =>
            rw [hescape] at h
            cases h
        | cons segment outer =>
            rw [hfollow] at h
            have hdepth : ((outer.length + 1 : Nat) : Int) + -1 = outer.length := by omega
            rw [hchange, List.length_cons, hdepth, ih h]
      · rw [hfollow] at h
        rw [hchange]
        exact ih h

/-! ## What is left -/

section Least

variable {start least : Int} {part : String} {rest : List String}

theorem isLeast_depths_of_le (h : IsLeast {depth | depth ∈ depths (start + change part) rest} least)
    (hle : least ≤ start) : IsLeast {depth | depth ∈ depths start (part :: rest)} least := by
  refine ⟨List.mem_cons_of_mem _ h.1, fun depth hmem => ?_⟩
  rcases List.mem_cons.mp hmem with rfl | hlater
  · exact hle
  · exact h.2 hlater

theorem isLeast_depths_of_lt (h : ∀ depth ∈ depths (start + change part) rest, start < depth) :
    IsLeast {depth | depth ∈ depths start (part :: rest)} start := by
  refine ⟨start_mem_depths, fun depth hmem => ?_⟩
  rcases List.mem_cons.mp hmem with rfl | hlater
  · exact Int.le_refl _
  · exact Int.le_of_lt (h depth hlater)

theorem kept_of_change_ne (h : change part ≠ 1) : kept (part :: rest) = kept rest := by
  rw [kept, if_neg fun hkept => h hkept.1]

end Least

/-- What is reached are the segments of the directory up to the least depth and the names
that are kept. -/
theorem exists_least_of_follow {trail parts reached : List String}
    (h : follow trail parts = some reached) :
    ∃ least : Nat, IsLeast {depth | depth ∈ depths trail.length parts} (least : Int)
      ∧ reached.reverse = trail.reverse.take least ++ kept parts := by
  induction parts generalizing trail with
  | nil =>
      cases h
      refine ⟨reached.length, ⟨start_mem_depths, fun depth hmem => ?_⟩, ?_⟩
      · exact Int.le_of_eq (List.mem_singleton.mp hmem).symm
      · rw [kept, List.append_nil, List.take_of_length_le (by simp)]
  | cons part rest ih =>
      rcases part_cases part with ⟨hchange, hfollow⟩ | ⟨hchange, hescape, hfollow⟩ |
        ⟨hchange, hfollow⟩
      · rw [hfollow] at h
        obtain ⟨least, hleast, hreached⟩ := ih h
        rw [← Int.add_zero (trail.length : Int), ← hchange] at hleast
        refine ⟨least, isLeast_depths_of_le hleast ?_, ?_⟩
        · have := hleast.2 start_mem_depths
          omega
        · rw [hreached, kept_of_change_ne (by omega)]
      · cases trail with
        | nil =>
            rw [hescape] at h
            cases h
        | cons segment outer =>
            rw [hfollow] at h
            obtain ⟨least, hleast, hreached⟩ := ih h
            have hbound := hleast.2 start_mem_depths
            have hdepth : (outer.length : Int) = (segment :: outer).length + change part := by
              rw [hchange, List.length_cons]
              omega
            rw [hdepth] at hleast
            refine ⟨least, isLeast_depths_of_le hleast (by omega), ?_⟩
            rw [hreached, kept_of_change_ne (by omega), List.reverse_cons,
              List.take_append_of_le_length (by simp; omega)]
      · rw [hfollow] at h
        obtain ⟨least, hleast, hreached⟩ := ih h
        have hbound := hleast.2 start_mem_depths
        have hdepth : (((part :: trail).length : Nat) : Int) = trail.length + change part := by
          rw [hchange, List.length_cons]
          rfl
        rw [hdepth] at hleast hbound
        -- The name is taken back if the depth behind it comes down to where it was entered.
        by_cases hback : (least : Int) ≤ trail.length
        · refine ⟨least, isLeast_depths_of_le hleast hback, ?_⟩
          have hfalls : ¬ ∀ depth ∈ depths 0 rest, 0 ≤ depth := by
            rw [← forall_mem_depths_iff (trail.length + change part)]
            intro hstays
            have := hstays _ hleast.1
            omega
          rw [hreached, kept, if_neg fun hkept => hfalls hkept.2, List.reverse_cons,
            List.take_append_of_le_length (by simp; omega)]
        · have habove : ∀ depth ∈ depths (trail.length + change part) rest,
              (trail.length : Int) < depth := fun depth hmem => by
            have := hleast.2 hmem
            omega
          refine ⟨trail.length, isLeast_depths_of_lt habove, ?_⟩
          have hstays : ∀ depth ∈ depths 0 rest, 0 ≤ depth := by
            rw [← forall_mem_depths_iff (trail.length + change part)]
            intro depth hmem
            have := habove depth hmem
            omega
          rw [hreached, kept, if_pos ⟨hchange, hstays⟩, List.reverse_cons,
            List.take_of_length_le (by simp; omega), List.take_of_length_le (by simp),
            List.append_assoc, List.singleton_append]

/-! ## Detours -/

/-- Parts that lead nowhere: one that stays, or a name that is left at once. -/
def Idle (parts : List String) : Prop :=
  parts = [""] ∨ parts = ["."]
    ∨ ∃ name, change name = 1 ∧ '/' ∉ name.toList ∧ parts = [name, ".."]

section Idle

variable {front inserted back : List String}

theorem Idle.ne_nil (h : Idle inserted) : inserted ≠ [] := by
  rcases h with rfl | rfl | ⟨name, -, -, rfl⟩ <;> exact List.cons_ne_nil _ _

theorem Idle.unbroken (h : Idle inserted) : Unbroken inserted := by
  rcases h with rfl | rfl | ⟨name, -, hname, rfl⟩
  · exact List.forall_mem_singleton.mpr (by decide)
  · exact List.forall_mem_singleton.mpr (by decide)
  · exact List.forall_mem_cons.mpr ⟨hname, List.forall_mem_singleton.mpr (by decide)⟩

theorem Idle.follow_front (h : Idle inserted) (trail : List String) :
    follow trail (inserted ++ back) = follow trail back := by
  rcases h with rfl | rfl | ⟨name, hname, -, rfl⟩
  · simp [follow]
  · simp [follow]
  · rcases part_cases name with ⟨hchange, -⟩ | ⟨hchange, -⟩ | ⟨-, hfollow⟩
    · omega
    · omega
    · rw [List.cons_append, hfollow]
      simp [follow]

theorem follow_append (trail front back : List String) :
    follow trail (front ++ back)
      = (follow trail front).bind fun reached => follow reached back := by
  induction front generalizing trail with
  | nil => rfl
  | cons part rest ih =>
      rw [List.cons_append]
      rcases part_cases part with ⟨-, hfollow⟩ | ⟨-, hescape, hfollow⟩ | ⟨-, hfollow⟩
      · rw [hfollow, hfollow, ih]
      · cases trail with
        | nil =>
            rw [hescape, hescape]
            rfl
        | cons segment outer => rw [hfollow, hfollow, ih]
      · rw [hfollow, hfollow, ih]

theorem Idle.follow_insert (h : Idle inserted) (trail front back : List String) :
    follow trail (front ++ inserted ++ back) = follow trail (front ++ back) := by
  rw [List.append_assoc, follow_append, follow_append]
  simp only [h.follow_front]

/-- With a detour behind its first part, a relative reference is one still. -/
theorem Idle.isRelative_insert (h : Idle inserted) {reference : String}
    (hrelative : isRelative reference = true) (hparts : segments reference = front ++ back)
    (hfront : front ≠ []) :
    segments (join (front ++ inserted ++ back)) = front ++ inserted ++ back
      ∧ isRelative (join (front ++ inserted ++ back)) = true := by
  have hunbroken : Unbroken (front ++ inserted ++ back) := by
    have hall := unbroken_segments reference
    rw [hparts] at hall
    obtain ⟨hfirst, hlast⟩ := List.forall_mem_append.mp hall
    exact List.forall_mem_append.mpr ⟨List.forall_mem_append.mpr ⟨hfirst, h.unbroken⟩, hlast⟩
  have hsome : front ++ inserted ++ back ≠ [] := by simp [hfront]
  have hsegments := segments_join hsome hunbroken
  obtain ⟨dots, second, rest, hreference, hdots⟩ := isRelative_iff_segments.mp hrelative
  obtain ⟨first, more, rfl⟩ := List.exists_cons_of_ne_nil hfront
  obtain ⟨next, others, rfl⟩ := List.exists_cons_of_ne_nil h.ne_nil
  rw [hreference, List.cons_append] at hparts
  obtain ⟨rfl, -⟩ := List.cons.inj hparts
  obtain ⟨behind, tail, hbehind⟩ := List.exists_cons_of_ne_nil
    (show more ++ (next :: others) ++ back ≠ [] by simp)
  refine ⟨hsegments, isRelative_iff_segments.mpr ⟨dots, behind, tail, ?_, hdots⟩⟩
  rw [hsegments, ← hbehind]
  rfl

end Idle

/-! ## Relative references -/

/-- The depths that a reference passes from a context on, which begins as deep as it has
slashes. -/
def passed (context reference : String) : List Int :=
  depths (context.toList.count '/') (segments reference)

theorem passed_eq (context reference : String) :
    passed context reference = depths (directory context).reverse.length (segments reference) := by
  rw [passed, List.length_reverse, length_directory]

theorem resolve_relative {context reference : String} (hcontext : context ≠ "")
    (hrelative : isRelative reference = true) :
    resolve (some context) reference = resolveIn context reference := by
  have hsome : reference ≠ "" := by
    rintro rfl
    exact absurd hrelative (by decide)
  rw [resolve, if_neg hsome, if_pos hrelative]
  exact if_neg hcontext

theorem resolveIn_mapError (context reference : String) :
    (resolveIn context reference).mapError Fault.kind =
      match follow (directory context).reverse (segments reference) with
      | none => .error .argumentInvalid
      | some [] => .error .argumentInvalid
      | some trail => .ok (join trail.reverse) := by
  rw [resolveIn]
  cases follow (directory context).reverse (segments reference) with
  | none => rfl
  | some trail => cases trail <;> rfl

theorem refused_iff {context reference : String} :
    (∃ fault, resolveIn context reference = .error fault ∧ fault.kind = .argumentInvalid) ↔
      (∃ depth ∈ passed context reference, depth < 0)
        ∨ (passed context reference).getLast? = some 0 := by
  rw [passed_eq, ← follow_eq_none_iff, resolveIn]
  cases hfollow : follow (directory context).reverse (segments reference) with
  | none => exact iff_of_true ⟨_, rfl, rfl⟩ (.inl rfl)
  | some reached =>
      rw [getLast?_depths_of_follow hfollow]
      cases reached with
      | nil => exact iff_of_true ⟨_, rfl, rfl⟩ (.inr rfl)
      | cons segment outer =>
          refine iff_of_false ?_ ?_
          · rintro ⟨fault, hfault, -⟩
            cases hfault
          · rintro (hnone | hzero)
            · cases hnone
            · cases hzero

/-- A relative reference is refused, as an invalid argument, exactly if the depth falls
below zero on its way or is zero at its end. Otherwise it leads to the segments of the
directory up to the least depth, followed by the names that are kept. And detours behind
its first part change neither where it leads nor how it is refused. -/
theorem resolve_by_depth (context reference : String) (hcontext : context ≠ "")
    (hrelative : isRelative reference = true) :
    ((∃ fault, resolve (some context) reference = .error fault ∧ fault.kind = .argumentInvalid) ↔
      (∃ depth ∈ passed context reference, depth < 0)
        ∨ (passed context reference).getLast? = some 0)
    ∧ ((∀ depth ∈ passed context reference, 0 ≤ depth) →
      (passed context reference).getLast? ≠ some 0 →
      ∃ least : Nat, IsLeast {depth | depth ∈ passed context reference} (least : Int)
        ∧ resolve (some context) reference
          = .ok (join ((directory context).take least ++ kept (segments reference))))
    ∧ ∀ front inserted back, segments reference = front ++ back → front ≠ [] → Idle inserted →
      (resolve (some context) (join (front ++ inserted ++ back))).mapError Fault.kind
        = (resolve (some context) reference).mapError Fault.kind := by
  have hresolve := resolve_relative hcontext hrelative
  refine ⟨hresolve ▸ refused_iff, fun hstays hends => ?_,
    fun front inserted back hparts hfront hidle => ?_⟩
  · rw [passed_eq] at hstays hends ⊢
    rw [hresolve, resolveIn]
    cases hfollow : follow (directory context).reverse (segments reference) with
    | none =>
        obtain ⟨depth, hmem, hbelow⟩ := follow_eq_none_iff.mp hfollow
        exact absurd (hstays depth hmem) (Int.not_le.mpr hbelow)
    | some reached =>
        obtain ⟨least, hleast, hreached⟩ := exists_least_of_follow hfollow
        rw [List.reverse_reverse] at hreached
        refine ⟨least, hleast, ?_⟩
        cases reached with
        | nil => exact absurd (getLast?_depths_of_follow hfollow) hends
        | cons segment outer => rw [← hreached]
  · obtain ⟨hsegments, hinserted⟩ := hidle.isRelative_insert hrelative hparts hfront
    rw [hresolve, resolve_relative hcontext hinserted, resolveIn_mapError, resolveIn_mapError,
      hsegments, hparts, hidle.follow_insert]

/-- Up one directory, and into another by a detour. -/
theorem detour_resolved :
    passed "app/ui/rules" "../core/x/../Base" = [2, 1, 2, 3, 2, 3]
      ∧ resolve (some "app/ui/rules") "../core/x/../Base" = .ok "app/core/Base"
      ∧ (resolve (some "app/ui/rules") "../core/x/.././Base").mapError Fault.kind
        = .ok "app/core/Base" := by
  have hrelative : isRelative "../core/x/../Base" = true := by decide
  have hpassed : passed "app/ui/rules" "../core/x/../Base" = [2, 1, 2, 3, 2, 3] := by decide
  obtain ⟨-, hresolve, hdetour⟩ := resolve_by_depth "app/ui/rules" "../core/x/../Base" (by decide)
    hrelative
  rw [hpassed] at hresolve
  obtain ⟨least, hleast, hresolved⟩ := hresolve (by decide) (by decide)
  have hone : least = 1 := by
    have hle : (least : Int) ≤ 1 := hleast.2 (List.mem_cons_of_mem _ List.mem_cons_self)
    have hmem : (least : Int) ∈ [2, 1, 2, 3, 2, 3] := hleast.1
    simp only [List.mem_cons, List.not_mem_nil, or_false] at hmem
    omega
  rw [hone] at hresolved
  have hid : join ((directory "app/ui/rules").take 1 ++ kept (segments "../core/x/../Base"))
      = "app/core/Base" := by decide
  have hlonger : join (["..", "core", "x", ".."] ++ ["."] ++ ["Base"]) = "../core/x/.././Base" := by
    decide
  rw [hid] at hresolved
  have hsame := hdetour ["..", "core", "x", ".."] ["."] ["Base"] (by decide)
    (List.cons_ne_nil _ _) (.inr (.inl rfl))
  rw [hlonger, hresolved] at hsame
  exact ⟨hpassed, hresolved, hsame⟩

end Reference

end Strata
