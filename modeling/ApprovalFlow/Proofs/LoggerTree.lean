import ApprovalFlow.Logging.Loggers
import Mathlib.Data.List.Find
import Mathlib.Data.List.Infix

/-!
# Loggers below the engine's

Whether a logger stands below the engine's depends on what other loggers there are only if two dots stand next
to each other in its name. All others stand there just when their names start with that of the engine's logger
and a dot (`isEngine_iff`).
-/

namespace ApprovalFlow.Logging

def Plain (logger : String) : Prop := ¬['.', '.'] <:+: logger.toList

instance : DecidablePred Plain := fun logger => inferInstanceAs (Decidable ¬['.', '.'] <:+: logger.toList)

def StartsAsEngine (logger : String) : Prop := engineLogger.toList ++ ['.'] <+: logger.toList

instance : DecidablePred StartsAsEngine := fun logger =>
  inferInstanceAs (Decidable (engineLogger.toList ++ ['.'] <+: logger.toList))

/-! ## Cutting names -/

theorem exists_of_mem_cuts {cs name : List Char} (h : cs ∈ cuts name) : ∃ s, name = s ++ '.' :: cs := by
  fun_induction cuts name with
  | case1 c rest ih =>
    rcases List.mem_cons.mp h with rfl | h
    · exact ⟨[], rfl⟩
    · obtain ⟨s, rfl⟩ := ih h
      exact ⟨'.' :: c :: s, rfl⟩
  | case2 c rest _ ih =>
    obtain ⟨s, rfl⟩ := ih h
    exact ⟨c :: s, rfl⟩
  | case3 => exact absurd h List.not_mem_nil

/-- Without dots next to each other a name is cut at each dot. -/
theorem mem_cuts {name : List Char} (hplain : ¬['.', '.'] <:+: name) {s rest : List Char} {c : Char}
    (h : name = s ++ '.' :: c :: rest) : c :: rest ∈ cuts name := by
  fun_induction cuts name generalizing s with
  | case1 c' rest' ih =>
    cases s with
    | nil =>
      cases h
      exact List.mem_cons_self
    | cons d s =>
      obtain ⟨-, h⟩ := List.cons.inj h
      cases s with
      | nil =>
        -- Here a dot would stand right before the one at which the name is cut.
        cases h
        exact absurd ⟨[], c :: rest, rfl⟩ hplain
      | cons e s =>
        obtain ⟨-, h⟩ := List.cons.inj h
        exact List.mem_cons_of_mem _ (ih (fun hi => hplain (hi.trans ⟨['.', c'], [], by simp⟩)) h)
  | case2 d rest' hother ih =>
    cases s with
    | nil => exact absurd h fun h => hother c rest (List.cons.inj h).1 (List.cons.inj h).2
    | cons e s =>
      obtain ⟨-, h⟩ := List.cons.inj h
      exact ih (fun hi => hplain (hi.trans (List.infix_cons (List.infix_refl _)))) h
  | case3 => cases s <;> cases h

theorem length_lt_of_mem_cuts {cs name : List Char} (h : cs ∈ cuts name) : cs.length < name.length := by
  obtain ⟨s, rfl⟩ := exists_of_mem_cuts h
  rw [List.length_append, List.length_cons]
  omega

/-- The rests of a name get shorter. -/
theorem pairwise_cuts (name : List Char) : (cuts name).Pairwise fun cs ds => ds.length < cs.length := by
  fun_induction cuts name with
  | case1 c rest ih =>
    refine List.pairwise_cons.mpr ⟨fun ds hds => ?_, ih⟩
    have := length_lt_of_mem_cuts hds
    rw [List.length_cons]
    omega
  | case2 _ _ _ ih => exact ih
  | case3 => exact .nil

/-! ## Loggers above -/

section Above

variable {names : List String} {logger name : String}

theorem exists_of_mem_candidates (h : name ∈ candidates logger) :
    ∃ s, logger.toList = name.toList ++ '.' :: s := by
  obtain ⟨cs, hcs, rfl⟩ := List.mem_map.mp h
  obtain ⟨s, hs⟩ := exists_of_mem_cuts hcs
  refine ⟨s.reverse, ?_⟩
  rw [← List.reverse_reverse logger.toList, hs, String.toList_ofList]
  simp

theorem mem_candidates (hplain : Plain logger) (hname : name ≠ "") {s : List Char}
    (h : logger.toList = name.toList ++ '.' :: s) : name ∈ candidates logger := by
  have hne : name.toList.reverse ≠ [] := by
    rw [Ne, List.reverse_eq_nil_iff, String.toList_eq_nil_iff]
    exact hname
  obtain ⟨c, rest, hrev⟩ := List.exists_cons_of_ne_nil hne
  have hcut : c :: rest ∈ cuts logger.toList.reverse := by
    refine mem_cuts (s := s.reverse) (fun hi => hplain ?_) (by rw [h, ← hrev]; simp)
    simpa using List.reverse_infix.mpr hi
  refine List.mem_map.mpr ⟨_, hcut, ?_⟩
  rw [← hrev, List.reverse_reverse, String.ofList_toList]

theorem length_lt_of_mem_candidates (h : name ∈ candidates logger) : name.length < logger.length := by
  obtain ⟨s, hs⟩ := exists_of_mem_candidates h
  rw [← String.length_toList, ← String.length_toList, hs, List.length_append, List.length_cons]
  omega

theorem pairwise_candidates (logger : String) :
    (candidates logger).Pairwise fun a b => b.length < a.length := by
  refine List.pairwise_map.mpr ((pairwise_cuts _).imp fun h => ?_)
  rwa [String.length_ofList, String.length_ofList, List.length_reverse, List.length_reverse]

theorem plain_of_mem_candidates (hplain : Plain logger) (h : name ∈ candidates logger) : Plain name := by
  obtain ⟨s, hs⟩ := exists_of_mem_candidates h
  exact fun hi => hplain (hi.trans (hs ▸ (List.prefix_append _ _).isInfix))

/-- Between a logger that starts as the engine's and the engine's own there are only such loggers. -/
theorem parent?_of_startsAsEngine (names : List String) (hplain : Plain logger) (hstarts : StartsAsEngine logger) :
    ∃ p, parent? names logger = some p ∧ (p = engineLogger ∨ StartsAsEngine p) := by
  have hengine : engineLogger ∈ candidates logger := by
    obtain ⟨s, hs⟩ := hstarts
    rw [List.append_assoc, List.singleton_append] at hs
    exact mem_candidates hplain (by decide) hs.symm
  have hsome : (parent? names logger).isSome := List.find?_isSome.mpr
    ⟨engineLogger, hengine, by rw [beq_self_eq_true, Bool.true_or]⟩
  obtain ⟨p, hp⟩ := Option.isSome_iff_exists.mp hsome
  refine ⟨p, hp, ?_⟩
  obtain ⟨-, before, after, heq, hbefore⟩ := List.find?_eq_some_iff_append.mp hp
  rw [heq, List.mem_append, List.mem_cons] at hengine
  rcases hengine with hmem | rfl | hmem
  · exact absurd (hbefore _ hmem) (by simp)
  · exact .inl rfl
  · -- The logger above has the longer name, and both are cut from the same one.
    have hpair := pairwise_candidates logger
    rw [heq, List.pairwise_append, List.pairwise_cons] at hpair
    have hlength := hpair.2.1.1 _ hmem
    obtain ⟨s, hs⟩ := exists_of_mem_candidates (List.mem_of_find?_eq_some hp)
    have hp : p.toList <+: logger.toList := ⟨_, hs.symm⟩
    refine .inr (List.prefix_of_prefix_length_le hstarts hp ?_)
    rw [List.length_append, List.length_singleton, String.length_toList, String.length_toList]
    exact hlength

theorem startsAsEngine_of_isEngineIn {fuel : Nat} (h : isEngineIn names fuel logger = true) :
    logger = engineLogger ∨ StartsAsEngine logger := by
  induction fuel generalizing logger with
  | zero => exact .inl (by simpa [isEngineIn] using h)
  | succ fuel ih =>
    simp only [isEngineIn, Bool.or_eq_true, beq_iff_eq, Option.any_eq_true] at h
    rcases h with rfl | ⟨p, hp, h⟩
    · exact .inl rfl
    obtain ⟨s, hs⟩ := exists_of_mem_candidates (List.mem_of_find?_eq_some hp)
    refine .inr ?_
    rcases ih h with rfl | hstarts
    · exact ⟨s, by rw [hs]; simp⟩
    · exact hstarts.trans (hs ▸ List.prefix_append _ _)

theorem isEngineIn_of_startsAsEngine {fuel : Nat} (hplain : Plain logger) (hfuel : logger.length ≤ fuel)
    (h : logger = engineLogger ∨ StartsAsEngine logger) : isEngineIn names fuel logger = true := by
  induction fuel generalizing logger with
  | zero =>
    rcases h with rfl | h
    · exact absurd hfuel (by decide)
    · have hlength := h.length_le
      rw [List.length_append, List.length_singleton, String.length_toList, String.length_toList] at hlength
      omega
  | succ fuel ih =>
    simp only [isEngineIn, Bool.or_eq_true, beq_iff_eq, Option.any_eq_true]
    refine h.imp_right fun h => ?_
    obtain ⟨p, hp, hstarts⟩ := parent?_of_startsAsEngine names hplain h
    have hmem := List.mem_of_find?_eq_some hp
    have := length_lt_of_mem_candidates hmem
    exact ⟨p, hp, ih (plain_of_mem_candidates hplain hmem) (by omega) hstarts⟩

/-- Without two dots next to each other a name alone tells whether its logger is the engine's or below it. -/
theorem isEngine_iff (hplain : Plain logger) :
    isEngine names logger = true ↔ logger = engineLogger ∨ StartsAsEngine logger :=
  ⟨startsAsEngine_of_isEngineIn, isEngineIn_of_startsAsEngine hplain (Nat.le_refl _)⟩

theorem isEngine_congr {names' : List String} (hplain : Plain logger) :
    isEngine names logger = isEngine names' logger := by
  rw [Bool.eq_iff_iff, isEngine_iff hplain, isEngine_iff hplain]

theorem parent?_withLogger (h : name.length ≤ logger.length) :
    parent? (withLogger names logger) name = parent? names name := by
  unfold parent? withLogger
  split
  · rfl
  refine List.find?_congr fun cand hmem => ?_
  have hne : cand ≠ logger := by
    rintro rfl
    have := length_lt_of_mem_candidates hmem
    omega
  rw [List.contains_append, List.contains_cons, beq_eq_false_iff_ne.mpr hne, List.contains_nil, Bool.or_false,
    Bool.or_false]

theorem isEngineIn_withLogger {fuel : Nat} (h : name.length ≤ logger.length) :
    isEngineIn (withLogger names logger) fuel name = isEngineIn names fuel name := by
  induction fuel generalizing name with
  | zero => rfl
  | succ fuel ih =>
    rw [isEngineIn, isEngineIn, parent?_withLogger h]
    cases hp : parent? names name with
    | none => rfl
    | some p =>
      have := length_lt_of_mem_candidates (List.mem_of_find?_eq_some hp)
      rw [Option.any_some, Option.any_some, ih (by omega)]

/-- To ask for a logger does not move it. -/
theorem isEngine_withLogger (names : List String) (logger : String) :
    isEngine (withLogger names logger) logger = isEngine names logger :=
  isEngineIn_withLogger (Nat.le_refl _)

/-- The root is not below the engine's logger, under whatever name it is asked for. -/
theorem isEngine_of_isRoot (h : isRoot logger = true) : isEngine names logger = false := by
  simp only [isRoot, Bool.or_eq_true, beq_iff_eq] at h
  have hplain : Plain logger := by rcases h with rfl | rfl <;> decide
  rw [← Bool.not_eq_true, isEngine_iff hplain]
  rcases h with rfl | rfl <;> decide

end Above

end ApprovalFlow.Logging
