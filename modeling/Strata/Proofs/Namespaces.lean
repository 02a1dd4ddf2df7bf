import Mathlib
import Strata.Proofs.Canonical

/-!
# Longest prefixes

A mapping of a prefix takes the place of the one that was there, and all mappings are sorted
again by bytes, the longest first. An id is answered by the first of them that it begins with.
The prefixes of one id are prefixes of each other, so among them more bytes is more text, and
the first in that order is the longest; of two that are equally long both cannot be prefixes
of the id. Where a mapping stands among those that the id does not begin with makes no
difference, and neither does the order in which they came.

So what is kept is a function of what was given last: `Recalls` says so for the ids, the
aliases and the prefixes, together with the order of the prefixes, which is what makes the
first hit the longest. Each command that is granted preserves it. What an id stands for is
then said without a registry, by `Denotes`, of the commands alone.
-/

namespace Strata

/-! ## Look-ups in an arrangement -/

namespace Fields

variable {α : Type}

theorem get?_eq_some_iff {fields : Fields α} {key : String} {value : α}
    (hdistinct : (keys fields).Nodup) : get? key fields = some value ↔ (key, value) ∈ fields := by
  refine ⟨mem_of_get?, fun hmem => ?_⟩
  induction fields with
  | nil => cases hmem
  | cons entry rest ih =>
      obtain ⟨hfresh, hrest⟩ := List.nodup_cons.mp hdistinct
      rcases List.mem_cons.mp hmem with rfl | hmem
      · exact if_pos rfl
      · have hne : key ≠ entry.1 := by
          intro hsame
          exact hfresh (hsame ▸ List.mem_map_of_mem hmem)
        exact (if_neg hne).trans (ih hrest hmem)

theorem get?_of_perm {left right : Fields α} (hperm : left.Perm right)
    (hdistinct : (keys left).Nodup) (key : String) : get? key left = get? key right := by
  have hdistinct' := (hperm.map Prod.fst).nodup_iff.mp hdistinct
  exact Option.ext fun value => by
    rw [get?_eq_some_iff hdistinct, get?_eq_some_iff hdistinct', hperm.mem_iff]

end Fields

namespace Registry

variable {registry grown : Registry} {namespaces : List (String × String)}
  {done : List Command}

/-! ## The order of the prefixes -/

theorem longerFirst_iff {entry other : String × String} :
    longerFirst entry other = true ↔ other.1.utf8ByteSize < entry.1.utf8ByteSize
      ∨ entry.1.utf8ByteSize = other.1.utf8ByteSize ∧ entry.1 ≤ other.1 := by
  simp only [longerFirst, Bool.or_eq_true, Bool.and_eq_true, decide_eq_true_eq,
    Bool.not_eq_true', decide_eq_false_iff_not, String.not_lt]

theorem longerFirst_trans (entry other third : String × String)
    (h : longerFirst entry other = true) (hthird : longerFirst other third = true) :
    longerFirst entry third = true := by
  rw [longerFirst_iff] at *
  rcases h with h | ⟨hsame, hle⟩
  · omega
  · rcases hthird with hthird | ⟨hsame', hle'⟩
    · omega
    · exact .inr ⟨hsame.trans hsame', String.le_trans hle hle'⟩

theorem longerFirst_total (entry other : String × String) :
    (longerFirst entry other || longerFirst other entry) = true := by
  rw [Bool.or_eq_true, longerFirst_iff, longerFirst_iff]
  rcases Nat.lt_trichotomy entry.1.utf8ByteSize other.1.utf8ByteSize with h | hsame | h
  · exact .inr (.inl h)
  · rcases String.le_total entry.1 other.1 with hle | hle
    · exact .inl (.inr ⟨hsame, hle⟩)
    · exact .inr (.inr ⟨hsame.symm, hle⟩)
  · exact .inl (.inl h)

/-- Of two texts that one text begins with, the one that takes no more bytes has no more
characters. -/
theorem length_le_of_utf8ByteSize_le {left right more rest : String}
    (h : left ++ more = right ++ rest) (hle : left.utf8ByteSize ≤ right.utf8ByteSize) :
    left.length ≤ right.length := by
  rw [← String.toList_inj, String.toList_append, String.toList_append] at h
  rw [← String.length_toList, ← String.length_toList]
  -- One of the two begins with the other. If it is the left one, what it has more takes no bytes.
  rcases List.append_eq_append_iff.mp h with ⟨between, hright, -⟩ | ⟨between, hleft, -⟩
  · rw [hright, List.length_append]
    exact Nat.le_add_right _ _
  · have hleft : left = right ++ String.ofList between := by
      rw [← String.toList_inj, hleft, String.toList_append, String.toList_ofList]
    rw [hleft, String.utf8ByteSize_append] at hle
    have hnothing : String.ofList between = "" := String.utf8ByteSize_eq_zero_iff.mp (by omega)
    rw [hleft, hnothing, String.append_empty]

/-- Mappings with distinct prefixes, the longest first. -/
structure Arranged (namespaces : List (String × String)) : Prop where
  distinct : (Fields.keys namespaces).Nodup
  sorted : namespaces.Pairwise fun entry other => longerFirst entry other = true

theorem keys_mapped_perm (start target : String) (namespaces : List (String × String)) :
    (Fields.keys (mapped start target namespaces)).Perm
      (Fields.keys (Fields.erase start namespaces) ++ [start]) := by
  have hperm := (List.mergeSort_perm (Fields.erase start namespaces ++ [(start, target)])
    longerFirst).map Prod.fst
  rw [List.map_append] at hperm
  exact hperm

theorem Arranged.distinct_mapped (h : Arranged namespaces) (start target : String) :
    (Fields.keys (mapped start target namespaces)).Nodup := by
  rw [(keys_mapped_perm start target namespaces).nodup_iff, List.nodup_append]
  refine ⟨h.distinct.sublist (List.filter_sublist.map _), List.nodup_singleton start, ?_⟩
  intro key hkey other hother
  rw [List.mem_singleton.mp hother]
  rintro rfl
  rw [← Fields.isSome_get?_iff, Fields.get?_erase_self] at hkey
  cases hkey

theorem Arranged.mapped (h : Arranged namespaces) (start target : String) :
    Arranged (mapped start target namespaces) where
  distinct := h.distinct_mapped start target
  sorted := List.pairwise_mergeSort longerFirst_trans longerFirst_total _

theorem Arranged.get?_mapped (h : Arranged namespaces) (start target other : String) :
    Fields.get? other (Registry.mapped start target namespaces)
      = if start = other then some target else Fields.get? other namespaces := by
  rw [Registry.mapped]
  have hperm := List.mergeSort_perm (Fields.erase start namespaces ++ [(start, target)]) longerFirst
  rw [Fields.get?_of_perm hperm (h.distinct_mapped start target), Fields.get?_append]
  by_cases hsame : start = other
  · subst hsame
    rw [Fields.get?_erase_self, if_pos rfl]
    exact if_pos rfl
  · rw [Fields.get?_erase_of_ne (Ne.symm hsame), if_neg hsame, Fields.get?, if_neg (Ne.symm hsame),
      Fields.get?_nil, Option.or_none]

theorem isPrefixOf_append (start rest : String) :
    start.toList.isPrefixOf (start ++ rest).toList = true :=
  List.isPrefixOf_iff_prefix.mpr ⟨rest.toList, String.toList_append.symm⟩

/-- No prefix of an id is longer than the one that is found first. -/
theorem Arranged.length_le_of_namespaceOf? (h : Arranged registry.namespaces)
    {start target longer other more : String} (hmem : (longer, other) ∈ registry.namespaces)
    (hfound : registry.namespaceOf? (longer ++ more) = some (start, target)) :
    longer.length ≤ start.length := by
  obtain ⟨-, rest, hid⟩ := of_namespaceOf? hfound
  obtain ⟨-, front, back, hsplit, hfront⟩ := List.find?_eq_some_iff_append.mp hfound
  have hsorted := h.sorted
  rw [hsplit] at hmem hsorted
  rcases List.mem_append.mp hmem with hbefore | hmem
  · have hmissed := hfront _ hbefore
    rw [isPrefixOf_append] at hmissed
    cases hmissed
  · rcases List.mem_cons.mp hmem with hsame | hbehind
    · cases hsame
      exact Nat.le_refl _
    · have hle := (List.pairwise_cons.mp (List.pairwise_append.mp hsorted).2.1).1 _ hbehind
      rw [longerFirst_iff] at hle
      dsimp only at hle
      exact length_le_of_utf8ByteSize_le hid (by omega)

/-- The longest prefix of an id is the one that is found first. -/
theorem Arranged.namespaceOf?_eq_some (h : Arranged registry.namespaces)
    {start target rest : String} (hmem : (start, target) ∈ registry.namespaces)
    (hlongest : ∀ longer other more, (longer, other) ∈ registry.namespaces →
      start ++ rest = longer ++ more → longer.length ≤ start.length) :
    registry.namespaceOf? (start ++ rest) = some (start, target) := by
  cases hfound : registry.namespaceOf? (start ++ rest) with
  | none => exact absurd (isPrefixOf_append start rest) (List.find?_eq_none.mp hfound _ hmem)
  | some found =>
      obtain ⟨first, other⟩ := found
      obtain ⟨hmem', more, hid⟩ := of_namespaceOf? hfound
      have hle := hlongest first other more hmem' hid
      have hge := h.length_le_of_namespaceOf? hmem hfound
      rw [← String.toList_inj, String.toList_append, String.toList_append] at hid
      have hsame := (List.append_inj hid (by
        rw [String.length_toList, String.length_toList]
        omega)).1
      rw [String.toList_inj] at hsame
      subst hsame
      rw [← Fields.get?_eq_some_iff h.distinct] at hmem hmem'
      cases hmem'.symm.trans hmem
      rfl

/-! ## What was given last -/

/-- The commands that are not refused when they are given one after the other. -/
def granted (registry : Registry) : List Command → List Command
  | [] => []
  | command :: rest =>
      match registry.perform command with
      | .ok grown => command :: grown.granted rest
      | .error _ => registry.granted rest

def registered (done : List Command) : List String :=
  done.filterMap Command.registers?

/-- What a command lets an alias stand for. -/
def Command.aliased? (id : String) : Command → Option String
  | .addAlias name target => if name = id then some target else none
  | _ => none

/-- What a command lets a prefix stand for. -/
def Command.mapped? (start : String) : Command → Option String
  | .addNamespace name target => if name = start then some target else none
  | _ => none

/-- What the last of the commands that give something gives. -/
def lastGiven (given? : Command → Option String) (done : List Command) : Option String :=
  (done.filterMap given?).getLast?

theorem lastGiven_concat (given? : Command → Option String) (done : List Command)
    (command : Command) :
    lastGiven given? (done ++ [command]) = (given? command).or (lastGiven given? done) := by
  rw [lastGiven, List.filterMap_append]
  cases hgiven : given? command with
  | none => rw [List.filterMap_cons_none hgiven, List.filterMap_nil, List.append_nil]; rfl
  | some target =>
      rw [List.filterMap_cons_some hgiven, List.filterMap_nil, List.getLast?_concat]
      rfl

theorem registered_concat (done : List Command) (command : Command) :
    registered (done ++ [command]) = registered done ++ command.registers?.toList := by
  rw [registered, List.filterMap_append]
  cases hregisters : command.registers? with
  | none => rw [List.filterMap_cons_none hregisters]; rfl
  | some id => rw [List.filterMap_cons_some hregisters]; rfl

/-- A registry holds what the commands registered and gave last. -/
structure Recalls (registry : Registry) (done : List Command) : Prop where
  index : ∀ id, Fields.has id registry.index = true ↔ id ∈ registered done
  aliases : ∀ id, Fields.get? id registry.aliases = lastGiven (Command.aliased? id) done
  namespaces : ∀ start, Fields.get? start registry.namespaces
    = lastGiven (Command.mapped? start) done
  arranged : Arranged registry.namespaces

theorem Recalls.append (h : registry.Recalls done) {command : Command} {entry : Entry}
    (hregisters : command.registers? = some entry.id)
    (happend : registry.append entry = .ok grown) : grown.Recalls (done ++ [command]) := by
  obtain ⟨-, -, rfl⟩ := append_eq_ok.mp happend
  -- A command that registers gives nothing to aliases and prefixes.
  have hgives : (∀ id, command.aliased? id = none) ∧ ∀ start, command.mapped? start = none := by
    cases command with
    | addType | addSubtype | addInstance => exact ⟨fun _ => rfl, fun _ => rfl⟩
    | addAlias | addNamespace => cases hregisters
  refine ⟨fun id => ?_, fun id => ?_, fun start => ?_, h.arranged⟩
  · rw [registered_concat, hregisters, List.mem_append, ← h.index, Fields.has, Fields.has,
      Fields.isSome_get?_iff, Fields.isSome_get?_iff, Fields.mem_keys_put, or_comm,
      Option.toList_some, List.mem_singleton]
  · rw [lastGiven_concat, hgives.1, Option.none_or]
    exact h.aliases id
  · rw [lastGiven_concat, hgives.2, Option.none_or]
    exact h.namespaces start

theorem Recalls.perform (h : registry.Recalls done) {command : Command}
    (hperform : registry.perform command = .ok grown) : grown.Recalls (done ++ [command]) := by
  rcases perform_cases hperform with
    ⟨entry, hregisters, -, happend⟩ | ⟨id, target, rfl, -, rfl⟩ | ⟨start, target, rfl, -, rfl⟩
  · exact h.append hregisters happend
  · refine ⟨fun other => ?_, fun other => ?_, fun other => ?_, h.arranged⟩
    · rw [registered_concat, Command.registers?, Option.toList_none, List.append_nil]
      exact h.index other
    · rw [lastGiven_concat, Command.aliased?, ← h.aliases]
      by_cases hsame : id = other
      · rw [if_pos hsame, hsame]
        exact Fields.get?_put_self other target registry.aliases
      · rw [if_neg hsame]
        exact Fields.get?_put_of_ne (Ne.symm hsame) target registry.aliases
    · rw [lastGiven_concat]
      exact h.namespaces other
  · refine ⟨fun other => ?_, fun other => ?_, fun other => ?_, h.arranged.mapped start target⟩
    · rw [registered_concat, Command.registers?, Option.toList_none, List.append_nil]
      exact h.index other
    · rw [lastGiven_concat]
      exact h.aliases other
    · rw [lastGiven_concat, Command.mapped?, ← h.namespaces]
      refine (h.arranged.get?_mapped start target other).trans ?_
      by_cases hsame : start = other
      · rw [if_pos hsame, if_pos hsame]
        rfl
      · rw [if_neg hsame, if_neg hsame]
        rfl

theorem Recalls.commands (h : registry.Recalls done) (commands : List Command) :
    (commands.foldl after registry).Recalls (done ++ registry.granted commands) := by
  induction commands generalizing registry done with
  | nil =>
      rw [granted, List.append_nil]
      exact h
  | cons command rest ih =>
      rw [List.foldl_cons, after, granted]
      cases hperform : registry.perform command with
      | ok grown =>
          have hrest := ih (h.perform hperform)
          rw [List.append_assoc] at hrest
          exact hrest
      | error fault => exact ih h

theorem recalls_empty : Recalls {} [] where
  index _ := ⟨fun h => Bool.noConfusion h, fun h => (List.not_mem_nil h).elim⟩
  aliases _ := rfl
  namespaces _ := rfl
  arranged := { distinct := List.nodup_nil, sorted := .nil }

theorem recalls_afterCommands (commands : List Command) :
    (afterCommands commands).Recalls (granted {} commands) :=
  recalls_empty.commands commands

/-! ## What an id stands for -/

/-- What an id stands for after commands: itself if they registered it; or else what it was
last given as an alias; or else, for the longest prefix that anything was given for, what was
last given for that and then the rest. -/
inductive Denotes (done : List Command) (id : String) : Option String → Prop
  | itself (h : id ∈ registered done) : Denotes done id (some id)
  | byAlias {target : String} (hnew : id ∉ registered done)
      (h : lastGiven (Command.aliased? id) done = some target) : Denotes done id (some target)
  | byPrefix {start rest target : String} (hnew : id ∉ registered done)
      (hplain : lastGiven (Command.aliased? id) done = none) (hid : id = start ++ rest)
      (h : lastGiven (Command.mapped? start) done = some target)
      (hlongest : ∀ longer more, id = longer ++ more →
        (lastGiven (Command.mapped? longer) done).isSome → longer.length ≤ start.length) :
      Denotes done id (some (target ++ rest))
  | nothing (hnew : id ∉ registered done) (hplain : lastGiven (Command.aliased? id) done = none)
      (h : ∀ start rest, id = start ++ rest → lastGiven (Command.mapped? start) done = none) :
      Denotes done id none

theorem Recalls.denotes_canonical? (h : registry.Recalls done) (id : String) :
    Denotes done id (registry.canonical? id) := by
  rw [canonical?]
  by_cases hindexed : Fields.has id registry.index = true
  · rw [if_pos hindexed]
    exact .itself ((h.index id).mp hindexed)
  have hnew : id ∉ registered done := mt (h.index id).mpr hindexed
  rw [if_neg hindexed, h.aliases]
  cases hplain : lastGiven (Command.aliased? id) done with
  | some target => exact .byAlias hnew hplain
  | none =>
      cases hfound : registry.namespaceOf? id with
      | some entry =>
          obtain ⟨start, target⟩ := entry
          obtain ⟨hmem, rest, rfl⟩ := of_namespaceOf? hfound
          dsimp only [Option.map_some]
          rw [drop_append]
          refine .byPrefix hnew hplain rfl ?_ fun longer more hid hgiven => ?_
          · rw [← h.namespaces, Fields.get?_eq_some_iff h.arranged.distinct]
            exact hmem
          · rw [← h.namespaces] at hgiven
            obtain ⟨other, hother⟩ := Option.isSome_iff_exists.mp hgiven
            rw [hid] at hfound
            exact h.arranged.length_le_of_namespaceOf? (Fields.mem_of_get? hother) hfound
      | none =>
          refine .nothing hnew hplain fun start rest hid => ?_
          rw [← h.namespaces, Option.eq_none_iff_forall_not_mem]
          intro target hgiven
          have hmissed := List.find?_eq_none.mp hfound _ (Fields.mem_of_get? hgiven)
          rw [hid] at hmissed
          exact hmissed (isPrefixOf_append start rest)

theorem Recalls.canonical?_of_denotes (h : registry.Recalls done) {id : String}
    {answer : Option String} (hdenotes : Denotes done id answer) :
    registry.canonical? id = answer := by
  rw [canonical?]
  cases hdenotes with
  | itself hthere => rw [if_pos ((h.index id).mpr hthere)]
  | byAlias hnew halias => rw [if_neg (mt (h.index id).mp hnew), h.aliases, halias]
  | @byPrefix start rest target hnew hplain hid hgiven hlongest =>
      rw [if_neg (mt (h.index id).mp hnew), h.aliases, hplain]
      subst hid
      rw [← h.namespaces, Fields.get?_eq_some_iff h.arranged.distinct] at hgiven
      have hfound := h.arranged.namespaceOf?_eq_some hgiven fun longer other more hmem hsplit => by
        refine hlongest longer more hsplit ?_
        rw [← h.namespaces, (Fields.get?_eq_some_iff h.arranged.distinct).mpr hmem]
        rfl
      dsimp only
      rw [hfound, Option.map_some, drop_append]
  | nothing hnew hplain hnone =>
      rw [if_neg (mt (h.index id).mp hnew), h.aliases, hplain]
      dsimp only
      cases hfound : registry.namespaceOf? id with
      | none => rfl
      | some found =>
          obtain ⟨start, target⟩ := found
          obtain ⟨hmem, rest, hid⟩ := of_namespaceOf? hfound
          have hgiven := hnone start rest hid
          rw [← h.namespaces, (Fields.get?_eq_some_iff h.arranged.distinct).mpr hmem] at hgiven
          cases hgiven

theorem Recalls.canonical?_eq_iff (h : registry.Recalls done) {id : String}
    {answer : Option String} : registry.canonical? id = answer ↔ Denotes done id answer := by
  refine ⟨fun hanswer => ?_, h.canonical?_of_denotes⟩
  rw [← hanswer]
  exact h.denotes_canonical? id

/-- Commands that register the same ids and leave the same targets for aliases and prefixes. -/
structure Agree (done other : List Command) : Prop where
  registered : ∀ id, id ∈ registered done ↔ id ∈ registered other
  aliases : ∀ id, lastGiven (Command.aliased? id) done = lastGiven (Command.aliased? id) other
  namespaces : ∀ start,
    lastGiven (Command.mapped? start) done = lastGiven (Command.mapped? start) other

theorem Agree.denotes {other : List Command} (hagree : Agree done other) {id : String}
    {answer : Option String} (h : Denotes done id answer) : Denotes other id answer := by
  cases h with
  | itself h => exact .itself ((hagree.registered id).mp h)
  | byAlias hnew h =>
      exact .byAlias (mt (hagree.registered id).mpr hnew) ((hagree.aliases id).symm.trans h)
  | byPrefix hnew hplain hid h hlongest =>
      refine .byPrefix (mt (hagree.registered id).mpr hnew) ((hagree.aliases id).symm.trans hplain)
        hid ((hagree.namespaces _).symm.trans h) fun longer more hsplit hgiven => ?_
      rw [← hagree.namespaces] at hgiven
      exact hlongest longer more hsplit hgiven
  | nothing hnew hplain h =>
      exact .nothing (mt (hagree.registered id).mpr hnew) ((hagree.aliases id).symm.trans hplain)
        fun start rest hid => (hagree.namespaces start).symm.trans (h start rest hid)

/-- In whichever order commands are given, and whatever is refused of them, an id has one
answer: itself if it was registered, the target that was last given to it as an alias, or the
longest prefix that it begins with replaced by the target that was last given for that. So
two runs that register the same ids and leave the same targets give the same answers. -/
theorem canonical_by_longest_prefix (commands : List Command) :
    let done := granted {} commands
    (∀ id, ((afterCommands commands).describe? id).isSome ↔ id ∈ registered done)
    ∧ (∀ id answer, (afterCommands commands).canonical? id = answer ↔ Denotes done id answer)
    ∧ ∀ others : List Command, Agree done (granted {} others) →
      ∀ id, (afterCommands commands).canonical? id = (afterCommands others).canonical? id := by
  intro done
  have hrecalls : (afterCommands commands).Recalls done := recalls_afterCommands commands
  refine ⟨fun id => ?_, fun id answer => hrecalls.canonical?_eq_iff, fun others hagree id => ?_⟩
  · rw [(grown_afterCommands commands).isSome_describe?_iff]
    exact hrecalls.index id
  · have hanswer := hagree.denotes (hrecalls.denotes_canonical? id)
    exact ((recalls_afterCommands others).canonical?_of_denotes hanswer).symm

/-- A prefix within another one, which is given a new target, and an alias that is refused. -/
def remapped : List Command :=
  [.addNamespace "old/" "x/", .addType "ui/box" none, .addNamespace "old/bo" "new/bo",
    .addAlias "box" "", .addAlias "box" "old/box", .addNamespace "old/" "ui/"]

def rearranged : List Command :=
  [.addAlias "box" "ui/box", .addNamespace "old/bo" "new/bo", .addNamespace "old/" "ui/",
    .addAlias "box" "old/box", .addType "ui/box" none]

theorem rearranged_answers :
    Denotes (granted {} remapped) "old/border" (some "new/border")
      ∧ Agree (granted {} remapped) (granted {} rearranged)
      ∧ ∀ id, (afterCommands remapped).canonical? id
        = (afterCommands rearranged).canonical? id := by
  obtain ⟨-, hanswers, hothers⟩ := canonical_by_longest_prefix remapped
  have hgranted : granted {} remapped
      = [.addNamespace "old/" "x/", .addType "ui/box" none, .addNamespace "old/bo" "new/bo",
        .addAlias "box" "old/box", .addNamespace "old/" "ui/"] := by cbv
  have hgranted' : granted {} rearranged = rearranged := by cbv
  have hagree : Agree (granted {} remapped) (granted {} rearranged) := by
    rw [hgranted, hgranted']
    refine ⟨fun id => Iff.rfl, fun id => ?_, fun start => ?_⟩
    · by_cases hid : "box" = id
      · subst hid
        rfl
      · simp only [lastGiven, rearranged, List.filterMap, Command.aliased?, if_neg hid]
    · by_cases hstart : "old/" = start
      · subst hstart
        rfl
      · by_cases hlonger : "old/bo" = start
        · subst hlonger
          rfl
        · simp only [lastGiven, rearranged, List.filterMap, Command.mapped?, if_neg hstart,
            if_neg hlonger]
  exact ⟨(hanswers "old/border" (some "new/border")).mp (by cbv), hagree, hothers rearranged hagree⟩

end Registry

end Strata
