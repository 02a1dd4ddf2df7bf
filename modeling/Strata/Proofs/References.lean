import Strata.Proofs.Outcomes
import Strata.Reference

/-!
# Where references lead

A relative reference is known by its first segment, a dot or two with something behind it.
Following the parts of a reference pops segments and pushes names, and no name is a dot or
two. So the outermost segment that is reached is the context's own or a name, and what is
reached from a context that is no relative reference is none either.

From a context that begins with dots the dots come through, because they are segments of
the directory like any others. The id that is reached then reads as a relative reference,
and resolving it once more may lead elsewhere.
-/

namespace Strata

namespace Text

variable {separator : Char}

theorem runsBetween_of_notMem {run : List Char} (h : separator ∉ run) :
    runsBetween separator run = [run] := by
  induction run with
  | nil => rfl
  | cons c rest ih =>
      obtain ⟨hc, hrest⟩ := not_or.mp (mt List.mem_cons.mpr h)
      rw [runsBetween, if_neg (Ne.symm hc), ih hrest]

theorem runsBetween_append {run : List Char} (h : separator ∉ run) (rest : List Char) :
    runsBetween separator (run ++ separator :: rest) = run :: runsBetween separator rest := by
  induction run with
  | nil => rw [List.nil_append, runsBetween, if_pos rfl]
  | cons c more ih =>
      obtain ⟨hc, hmore⟩ := not_or.mp (mt List.mem_cons.mpr h)
      rw [List.cons_append, runsBetween, if_neg (Ne.symm hc), ih hmore]

/-- A text begins with a run and a separator exactly if this is the first of several runs. -/
theorem prefix_iff_runsBetween {run cs : List Char} (h : separator ∉ run) :
    run ++ [separator] <+: cs ↔
      ∃ second rest, runsBetween separator cs = run :: second :: rest := by
  constructor
  · rintro ⟨rest, rfl⟩
    obtain ⟨second, more, hrest⟩ := List.exists_cons_of_ne_nil (runsBetween_ne_nil separator rest)
    refine ⟨second, more, ?_⟩
    rw [List.append_assoc, List.singleton_append, runsBetween_append h, hrest]
  · rintro ⟨second, rest, hruns⟩
    have hcs := intercalate_runsBetween separator cs
    rw [hruns, List.intercalate_cons_cons] at hcs
    exact ⟨_, hcs⟩

end Text

namespace Reference

/-! ## Segments -/

/-- Segments that an id can have. -/
def Unbroken (segments : List String) : Prop :=
  ∀ segment ∈ segments, '/' ∉ segment.toList

theorem unbroken_segments (id : String) : Unbroken (segments id) := by
  intro segment hmem
  obtain ⟨run, hrun, rfl⟩ := List.mem_map.mp hmem
  rw [String.toList_ofList]
  exact Text.separator_notMem_runsBetween hrun

/-- An id is cut into the segments that it was joined from. -/
theorem segments_join {pieces : List String} (hsome : pieces ≠ []) (h : Unbroken pieces) :
    segments (join pieces) = pieces := by
  suffices hruns : Text.runsBetween '/' (['/'].intercalate (pieces.map String.toList))
      = pieces.map String.toList by
    rw [segments, Text.pieces, join, String.toList_intercalate]
    show (Text.runsBetween '/' (['/'].intercalate _)).map String.ofList = pieces
    rw [hruns, List.map_map]
    exact List.map_id'' (fun _ => String.ofList_toList) pieces
  induction pieces with
  | nil => exact absurd rfl hsome
  | cons first rest ih =>
      obtain ⟨hfirst, hrest⟩ := List.forall_mem_cons.mp h
      cases rest with
      | nil =>
          rw [List.map_singleton, List.intercalate_singleton, Text.runsBetween_of_notMem hfirst]
      | cons second more =>
          have hbehind := ih (List.cons_ne_nil _ _) hrest
          rw [List.map_cons] at hbehind
          rw [List.map_cons, List.map_cons, List.intercalate_cons_cons, List.append_assoc,
            List.singleton_append, Text.runsBetween_append hfirst, hbehind]

/-- A dot, or two. -/
def IsDots (segment : String) : Prop :=
  segment = "." ∨ segment = ".."

theorem IsDots.unbroken {dots : String} (h : IsDots dots) : '/' ∉ dots.toList := by
  rcases h with rfl | rfl
  · decide
  · decide

theorem isRelative_iff {id : String} :
    isRelative id = true ↔ ∃ dots, IsDots dots ∧ dots.toList ++ ['/'] <+: id.toList := by
  rw [isRelative, Bool.or_eq_true, List.isPrefixOf_iff_prefix, List.isPrefixOf_iff_prefix]
  constructor
  · rintro (h | h)
    · exact ⟨".", .inl rfl, h⟩
    · exact ⟨"..", .inr rfl, h⟩
  · rintro ⟨_, rfl | rfl, h⟩
    · exact .inl h
    · exact .inr h

/-- A relative reference has dots as its first segment and another behind it. -/
theorem isRelative_iff_segments {id : String} :
    isRelative id = true ↔ ∃ dots second rest, segments id = dots :: second :: rest
      ∧ IsDots dots := by
  rw [isRelative_iff]
  constructor
  · rintro ⟨dots, hdots, h⟩
    obtain ⟨second, rest, hruns⟩ := (Text.prefix_iff_runsBetween hdots.unbroken).mp h
    exact ⟨dots, String.ofList second, rest.map String.ofList, by
      rw [segments, Text.pieces, hruns, List.map_cons, List.map_cons, String.ofList_toList], hdots⟩
  · rintro ⟨dots, second, rest, hsegments, hdots⟩
    obtain ⟨run, more, hruns, hrun, hmore⟩ := List.map_eq_cons_iff.mp hsegments
    obtain ⟨next, others, rfl, -, -⟩ := List.map_eq_cons_iff.mp hmore
    refine ⟨dots, hdots, (Text.prefix_iff_runsBetween hdots.unbroken).mpr ⟨next, others, ?_⟩⟩
    rw [hruns, ← hrun, String.toList_ofList]

/-- What begins with a text that is neither empty nor dots is a relative reference only if
the text is one. -/
theorem isRelative_append {start rest : String} (h : isRelative start = false)
    (hsome : start ≠ "") (hdots : ¬ IsDots start) : isRelative (start ++ rest) = false := by
  have hnot : ∀ dots, IsDots dots → ¬ dots.toList ++ ['/'] <+: start.toList :=
    fun dots hisDots hprefix => by
      rw [isRelative_iff.mpr ⟨dots, hisDots, hprefix⟩] at h
      cases h
  rw [Bool.eq_false_iff]
  intro hrelative
  obtain ⟨dots, hisDots, hprefix⟩ := isRelative_iff.mp hrelative
  rw [String.toList_append] at hprefix
  rcases List.prefix_or_prefix_of_prefix hprefix (List.prefix_append _ _) with hwhole | hpart
  · exact hnot dots hisDots hwhole
  rcases List.prefix_concat_iff.mp hpart with hsame | hshort
  · exact hnot dots hisDots (hsame ▸ List.prefix_rfl)
  -- The text ends before the slash, so it is a part of the dots.
  rcases hisDots with rfl | rfl
  · rcases List.prefix_cons_iff.mp hshort with hnil | ⟨more, hmore, hnil⟩
    · exact hsome (String.toList_eq_nil_iff.mp hnil)
    · rw [List.prefix_nil.mp hnil] at hmore
      exact hdots (.inl (String.toList_inj.mp hmore))
  · rcases List.prefix_cons_iff.mp hshort with hnil | ⟨more, hmore, hshort⟩
    · exact hsome (String.toList_eq_nil_iff.mp hnil)
    rcases List.prefix_cons_iff.mp hshort with rfl | ⟨none, rfl, hnil⟩
    · exact hdots (.inl (String.toList_inj.mp hmore))
    · rw [List.prefix_nil.mp hnil] at hmore
      exact hdots (.inr (String.toList_inj.mp hmore))

/-! ## Following parts -/

/-- A trail of segments, innermost first, that are unbroken and end outermost in no dots. -/
structure Rooted (trail : List String) : Prop where
  unbroken : Unbroken trail
  outermost : ∀ segment, trail.getLast? = some segment → ¬ IsDots segment

theorem Rooted.pop {segment : String} {outer : List String} (h : Rooted (segment :: outer)) :
    Rooted outer := by
  refine ⟨(List.forall_mem_cons.mp h.unbroken).2, fun last hlast => h.outermost last ?_⟩
  cases outer with
  | nil => cases hlast
  | cons next more => rw [List.getLast?_cons_cons, hlast]

theorem Rooted.push {name : String} {trail : List String} (h : Rooted trail)
    (hname : '/' ∉ name.toList) (hdots : ¬ IsDots name) : Rooted (name :: trail) := by
  refine ⟨List.forall_mem_cons.mpr ⟨hname, h.unbroken⟩, fun last hlast => ?_⟩
  cases trail with
  | nil =>
      cases hlast
      exact hdots
  | cons next more =>
      rw [List.getLast?_cons_cons] at hlast
      exact h.outermost last hlast

theorem Rooted.follow {trail parts reached : List String} (h : Rooted trail)
    (hparts : Unbroken parts) (hreached : follow trail parts = some reached) :
    Rooted reached := by
  induction parts generalizing trail with
  | nil =>
      cases hreached
      exact h
  | cons part rest ih =>
      obtain ⟨hpart, hrest⟩ := List.forall_mem_cons.mp hparts
      unfold Reference.follow at hreached
      split at hreached
      · exact ih h hrest hreached
      · next hstays =>
          split at hreached
          · cases trail with
            | nil => cases hreached
            | cons segment outer => exact ih h.pop hrest hreached
          · next hleaves =>
              refine ih (h.push hpart ?_) hrest hreached
              exact fun hdots => hdots.elim (fun hdot => hstays (.inr hdot)) hleaves

/-- The id of a trail that is rooted is no relative reference. -/
theorem Rooted.isRelative_join {trail : List String} (h : Rooted trail) (hsome : trail ≠ []) :
    isRelative (join trail.reverse) = false := by
  rw [Bool.eq_false_iff]
  intro hrelative
  obtain ⟨first, second, rest, hsegments, hdots⟩ := isRelative_iff_segments.mp hrelative
  rw [segments_join (List.reverse_ne_nil_iff.mpr hsome)
    fun segment hmem => h.unbroken segment (List.mem_reverse.mp hmem)] at hsegments
  refine h.outermost first ?_ hdots
  rw [← List.head?_reverse, hsegments, List.head?_cons]

/-- The directory of an id that is no relative reference is rooted. -/
theorem rooted_directory {context : String} (h : isRelative context = false) :
    Rooted (directory context).reverse := by
  refine ⟨fun segment hmem => unbroken_segments context segment
    (List.dropLast_subset _ (List.mem_reverse.mp hmem)), fun first hfirst hdots => ?_⟩
  rw [List.getLast?_reverse, directory] at hfirst
  -- A directory has a segment only if the id has one more behind it.
  cases hsegments : segments context with
  | nil =>
      rw [hsegments] at hfirst
      cases hfirst
  | cons segment more =>
      cases more with
      | nil =>
          rw [hsegments] at hfirst
          cases hfirst
      | cons second rest =>
          rw [hsegments] at hfirst
          cases hfirst
          rw [isRelative_iff_segments.mpr ⟨_, second, rest, hsegments, hdots⟩] at h
          cases h

/-- Within a context that is no relative reference, no reference leads to one. -/
theorem isRelative_of_resolve {contextId : Option String} {reference id : String}
    (hcontext : ∀ context, contextId = some context → isRelative context = false)
    (h : resolve contextId reference = .ok id) : isRelative id = false := by
  unfold resolve at h
  split at h
  · cases h
  split at h
  · split at h
    · cases h
    next context =>
      split at h
      · cases h
      rw [resolveIn] at h
      split at h
      · cases h
      · cases h
      · next trail hsome hfollow =>
          cases h
          exact ((rooted_directory (hcontext context rfl)).follow
            (unbroken_segments reference) hfollow).isRelative_join fun hnil => hsome hnil
  · next habsolute =>
      cases h
      exact Bool.eq_false_iff.mpr habsolute

/-- What is no relative reference stands for itself. -/
theorem eq_of_resolve {contextId : Option String} {reference id : String}
    (habsolute : isRelative reference = false) (h : resolve contextId reference = .ok id) :
    id = reference := by
  unfold resolve at h
  split at h
  · cases h
  · rw [habsolute, if_neg Bool.false_ne_true] at h
    cases h
    rfl

end Reference

end Strata
