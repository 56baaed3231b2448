import ApprovalFlow.Logging.Routing
import ApprovalFlow.Proofs.LogLine
import ApprovalFlow.Proofs.LoggerTree

/-!
# Where log lines arrive

Logging can be configured again and again, in between and after whatever was logged. From the first time on
there is one handler, which writes to the stream given last, also when the levels given with it were
refused. A note that is due writes one line there, and no other note writes a line anywhere. Which notes are due
depends on the levels, and these on nothing but the last time that each of them was given; only for a logger
that has come to stand elsewhere in the tree an earlier decision may still hold.
-/

namespace ApprovalFlow.Logging

open Json (Printed)

variable {st start : State} {limits : Limits} {errors : Option ErrorOutput} {n : Note} {created : Instant}
  {failure : Option Noted} {stream logger : String} {level : Level}

/-! ## Records that can be written -/

/-- A value under the name of what gives the message stands in its way; other values do not touch it. -/
theorem Record.message_withExtras {r : Record} (hextras : r.extras = []) (extras : Entries String Value) :
    (r.withExtras extras).message limits = match Entries.get? messageName extras with
      | some v => .error (.notCallable v.fullTypeName)
      | none => r.message limits := by
  unfold message
  rw [hextras]
  cases h : Entries.get? messageName extras with
  | some v =>
    simp only [withExtras, h]
    rfl
  | none =>
    simp only [withExtras, h]
    rfl

def Note.message (n : Note) (limits : Limits) : Except Problem String :=
  (Record.make (shownName n.logger) n.level n.text n.arguments 0 none).message limits

/-- What makes a note's record one that can be written: its text can be filled in, no value stands in the way
of its message, its time and its failure can be shown, and there is room for its values. -/
structure Note.Writable (limits : Limits) (n : Note) (created : Instant) (failure : Option Noted) : Prop where
  message : ∃ text, n.message limits = .ok text
  clear : ∀ p ∈ n.extras, p.1 ≠ messageName
  datable : Record.Datable created
  failure : ∀ f, failure = some f → f.isSomething = true → ∃ text, Record.noteText f = .ok text
  roomy : Record.Roomy limits n.extras

theorem Note.record_eq (hnames : ∀ p ∈ n.extras, p.1 ∉ reservedNames) :
    n.record created failure = (n.base created failure).withExtras (Entries.ofList n.extras) :=
  Record.setAll_of_not_reserved hnames rfl rfl

theorem get?_messageName_eq_none_iff {extras : Entries String Value} :
    Entries.get? messageName (Entries.ofList extras) = none ↔ ∀ p ∈ extras, p.1 ≠ messageName := by
  rw [Entries.get?_ofList, ← Option.not_isSome_iff_eq_none, Entries.last?_isSome_iff, List.mem_map]
  constructor
  · intro h p hp hname
    exact h ⟨p, hp, hname⟩
  · intro h hmem
    obtain ⟨p, hp, hname⟩ := hmem
    exact h p hp hname

theorem Note.exists_message_iff :
    (∃ text, ((n.base created failure).withExtras (Entries.ofList n.extras)).message limits = .ok text) ↔
      (∃ text, n.message limits = .ok text) ∧ ∀ p ∈ n.extras, p.1 ≠ messageName := by
  have hbase : (n.base created failure).message limits = n.message limits := rfl
  rw [← get?_messageName_eq_none_iff, Record.message_withExtras rfl, hbase]
  cases Entries.get? messageName (Entries.ofList n.extras) with
  | some v => simp
  | none => simp

theorem Note.exists_failureText_iff :
    (∃ text, (n.base created failure).failureText? = .ok text) ↔
      ∀ f, failure = some f → f.isSomething = true → ∃ text, Record.noteText f = .ok text := by
  unfold Note.base Record.failureText?
  cases failure with
  | none => simp
  | some f =>
    cases hf : f.isSomething with
    | false => simp [Option.filter, hf]
    | true =>
      cases ht : Record.noteText f <;> simp [Option.filter, hf, ht, Except.map]

/-- A record is one line just when it can be written. -/
theorem Note.exists_line_iff (hdepth : 2 ≤ limits.depth) (hnames : ∀ p ∈ n.extras, p.1 ∉ reservedNames) :
    (∃ line, (n.record created failure).line limits = .ok line) ↔ n.Writable limits created failure := by
  have hinstant : (n.base created failure).instant = (Record.make "" Level.unset .null [] created none).instant :=
    Record.instant_congr rfl
  have hline : ∀ line, ((n.base created failure).withExtras (Entries.ofList n.extras)).line limits = .ok line ↔ _ :=
    fun _ => Record.line_withExtras_iff rfl rfl rfl hdepth
  rw [Note.record_eq hnames]
  constructor
  · rintro ⟨line, h⟩
    obtain ⟨t, text, shown, ht, htext, hshown, hroomy, -⟩ := (hline line).mp h
    obtain ⟨hmessage, hclear⟩ := Note.exists_message_iff.mp ⟨text, htext⟩
    exact ⟨hmessage, hclear, ⟨t, hinstant.symm.trans ht⟩, Note.exists_failureText_iff.mp ⟨shown, hshown⟩, hroomy⟩
  · rintro ⟨hmessage, hclear, ⟨t, ht⟩, hfailure, hroomy⟩
    obtain ⟨text, htext⟩ := Note.exists_message_iff.mpr ⟨hmessage, hclear⟩
    obtain ⟨shown, hshown⟩ := Note.exists_failureText_iff.mpr hfailure
    exact ⟨_, (hline _).mpr ⟨t, text, shown, hinstant.trans ht, htext, hshown, hroomy, rfl⟩⟩

/-- A line is printed on one line. -/
theorem Record.printed_line {r : Record} {line : String} (h : r.line limits = .ok line) : Printed line.toList := by
  obtain ⟨members, -, -, rfl⟩ := Record.line_eq_ok_iff.mp h
  exact Json.printed_write _

/-- A mere text can always be written at a time that the calendar can show. -/
theorem writable_text {text : String} (h : Record.Datable created) :
    Note.Writable limits ⟨logger, level, .text text, [], []⟩ created none where
  message := ⟨text, rfl⟩
  clear _ hp := absurd hp List.not_mem_nil
  datable := h
  failure _ hf := by cases hf
  roomy := by
    refine ⟨fun v hv => ?_, fun p hp => absurd hp List.not_mem_nil⟩
    cases hv

/-! ## Notes that are due -/

/-- A note that comes to the handlers: it is taken from its logger, its level has a name, and none of its values
has a reserved one. -/
structure Admitted (st : State) (limits : Limits) (n : Note) : Prop where
  taken : st.takes n.logger n.level = true
  named : Value.excessOfInt? limits n.level = none
  unreserved : ∀ p ∈ n.extras, p.1 ∉ reservedNames

/-- The texts that a note writes, each with its stream; a note that is refused writes none. -/
def State.written (st : State) (limits : Limits) (errors : Option ErrorOutput) (created : Instant) (n : Note)
    (failure : Option Noted) : List (String × String) :=
  (st.write limits errors created n failure).toOption.getD []

theorem effectiveLevel_ask (st : State) (logger : String) :
    (st.ask logger).effectiveLevel logger = st.effectiveLevel logger := by
  unfold State.effectiveLevel Routing.effectiveLevel
  rw [show (st.ask logger).names = withLogger st.names logger from rfl, isEngine_withLogger]
  rfl

theorem takes_ask (st : State) (logger : String) (level : Level) :
    (st.ask logger).takes logger level = st.takes logger level := by
  unfold State.takes
  rw [effectiveLevel_ask]
  rfl

theorem find?_reserved_eq_none_iff {extras : Entries String Value} :
    extras.find? (fun (name, _) => reservedNames.contains name) = none ↔
      ∀ p ∈ extras, p.1 ∉ reservedNames := by
  rw [List.find?_eq_none]
  simp only [List.contains_iff_mem]

theorem written_of_not_admitted (h : ¬Admitted st limits n) :
    st.written limits errors created n failure = [] := by
  unfold State.written State.write Routing.deliver
  rw [takes_ask]
  cases htakes : st.takes n.logger n.level with
  | false => rfl
  | true =>
    cases hx : Value.excessOfInt? limits n.level with
    | some x => rfl
    | none =>
      cases hfind : n.extras.find? (fun (name, _) => reservedNames.contains name) with
      | some p => rfl
      | none => exact absurd ⟨htakes, hx, find?_reserved_eq_none_iff.mp hfind⟩ h

theorem write_of_admitted (hst : st.routing.handlers = [.stream stream]) (h : Admitted st limits n) :
    st.write limits errors created n failure =
      Routing.handle limits errors (n.record created failure) (.stream stream) := by
  unfold State.write Routing.deliver
  rw [takes_ask, if_pos h.taken, h.named, find?_reserved_eq_none_iff.mpr h.unreserved, hst, List.mapM_cons]
  cases Routing.handle limits errors (n.record created failure) (.stream stream) with
  | error x => rfl
  | ok lines =>
    show Except.ok [lines].flatten = _
    rw [List.flatten_singleton]

theorem written_of_writable (hst : st.routing.handlers = [.stream stream]) (hdepth : 2 ≤ limits.depth)
    (h : Admitted st limits n) (hwritable : n.Writable limits created failure) :
    ∃ line, Printed line.toList ∧ st.written limits errors created n failure = [(stream, line)] := by
  obtain ⟨line, hline⟩ := (Note.exists_line_iff hdepth h.unreserved).mpr hwritable
  refine ⟨line, Record.printed_line hline, ?_⟩
  unfold State.written
  rw [write_of_admitted hst h, Routing.handle, hline]
  rfl

theorem written_of_not_writable (hst : st.routing.handlers = [.stream stream]) (hdepth : 2 ≤ limits.depth)
    (h : Admitted st limits n) (hwritable : ¬n.Writable limits created failure) :
    ∃ p, (n.record created failure).line limits = .error p ∧
      st.written limits errors created n failure =
        if p.kind = .exhausted then []
        else errors.toList.map fun o => (o.stream, o.report (n.record created failure) p) := by
  cases hline : (n.record created failure).line limits with
  | ok line => exact absurd ((Note.exists_line_iff hdepth h.unreserved).mp ⟨line, hline⟩) hwritable
  | error p =>
    refine ⟨p, rfl, ?_⟩
    unfold State.written
    rw [write_of_admitted hst h, Routing.handle, hline]
    dsimp only
    split <;> rfl

/-! ## Decisions -/

def State.severe (st : State) (logger : String) (level : Level) : Bool :=
  0 < level && st.effectiveLevel logger ≤ level

/-- What was decided about loggers that keep their place in the tree is what would be decided now. -/
def Settled (st : State) : Prop :=
  ∀ logger level b, Plain logger → Entries.get? (shownName logger, level) st.decided = some b →
    b = st.severe logger level

theorem settled_of_nothing_decided (routing : Routing) (names : List String) : Settled ⟨routing, names, []⟩ :=
  fun _ _ _ _ h => by cases h

theorem takes_of_settled (hst : Settled st) (hplain : Plain logger) :
    st.takes logger level = st.severe logger level := by
  unfold State.takes
  cases h : Entries.get? (shownName logger, level) st.decided with
  | none => rfl
  | some b => exact hst logger level b hplain h

theorem severe_congr {st' : State} (hroot : st'.routing.rootLevel = st.routing.rootLevel)
    (hengine : st'.routing.engineLevel = st.routing.engineLevel) (hplain : Plain logger) :
    st'.severe logger level = st.severe logger level := by
  unfold State.severe State.effectiveLevel Routing.effectiveLevel
  rw [hroot, hengine, isEngine_congr hplain]

/-- Loggers that show one name have one level. -/
theorem severe_of_shownName {logger' : String} (h : shownName logger' = shownName logger) :
    st.severe logger' level = st.severe logger level := by
  have hroot : isRoot "root" = true := rfl
  unfold shownName at h
  unfold State.severe State.effectiveLevel Routing.effectiveLevel
  split at h <;> split at h
  · rename_i h' h''
    rw [isEngine_of_isRoot h', isEngine_of_isRoot h'']
  · rename_i hn
    exact absurd (h ▸ hroot) hn
  · rename_i hn _
    exact absurd (h ▸ hroot) hn
  · rw [h]

theorem takes_of_shownName {logger' : String} (h : shownName logger' = shownName logger) :
    st.takes logger' level = st.takes logger level := by
  have hsevere : st.severe logger' level = st.severe logger level := severe_of_shownName h
  unfold State.severe at hsevere
  unfold State.takes
  rw [h, hsevere]

theorem settled_ask (hst : Settled st) (logger : String) : Settled (st.ask logger) := by
  intro logger' level b hplain h
  have hsevere : (st.ask logger).severe logger' level = st.severe logger' level := severe_congr rfl rfl hplain
  exact (hst logger' level b hplain h).trans hsevere.symm

theorem settled_settle (hst : Settled st) (logger : String) (level : Level) :
    Settled (st.settle logger level) := by
  intro logger' level' b hplain h
  have hsevere : (st.settle logger level).severe logger' level' = st.severe logger' level' := rfl
  rw [hsevere]
  rw [State.settle, Entries.get?_put] at h
  split at h
  · rename_i heq
    obtain ⟨hname, rfl⟩ := Prod.mk.inj heq
    rw [← Option.some.inj h, takes_of_shownName hname, takes_of_settled hst hplain]
  · exact hst logger' level' b hplain h

theorem settled_after (hst : Settled st) (n : Note) : Settled (st.after n) :=
  settled_settle (settled_ask hst n.logger) n.logger n.level

/-! ## Levels -/

/-- The level that is asked for the engine: none without a name, and none under the name for no level. -/
def engineChoice? (engineLevel : Option String) : Option Level :=
  (engineLevel.filter (· != "")).bind fun name => (Routing.levelNamed name).toOption.filter (· != .unset)

theorem engineChoice?_ne_unset {engineLevel : Option String} {l : Level} (h : engineChoice? engineLevel = some l) :
    l ≠ .unset := by
  obtain ⟨name, -, h⟩ := Option.bind_eq_some_iff.mp h
  simpa using (Option.filter_eq_some_iff.mp h).2

section Configuring

variable {r : Routing}

/-- The engine's loggers have its level if it has one, and all others that of the root. -/
theorem effectiveLevel_eq (handlers : List Handler) (l : Level) {choice : Option Level}
    (hchoice : ∀ l ∈ choice, l ≠ .unset) (names : List String) (logger : String) :
    Routing.effectiveLevel ⟨handlers, l, choice.getD .unset⟩ names logger =
      if isEngine names logger then choice.getD l else l := by
  unfold Routing.effectiveLevel
  cases choice with
  | none => simp
  | some l' =>
    have hne : l' ≠ .unset := hchoice l' rfl
    simp [hne]

/-- Configuring succeeds just with known levels. Then the root has the level given first, and the engine the
one asked for it. -/
theorem configure_ok {level : String} {engineLevel : Option String}
    (h : (r.configure level engineLevel stream).1 = .ok ()) :
    ∃ l, Routing.levelNamed level = .ok l ∧ (r.configure level engineLevel stream).2 =
      { r with
        handlers := [.stream stream]
        rootLevel := l
        engineLevel := (engineChoice? engineLevel).getD .unset } := by
  unfold Routing.configure at h ⊢
  dsimp only at h ⊢
  cases hlevel : Routing.levelNamed level with
  | error u =>
    rw [hlevel] at h
    cases h
  | ok l =>
    rw [hlevel] at h
    refine ⟨l, rfl, ?_⟩
    cases engineLevel with
    | none => rfl
    | some name =>
      by_cases hname : name = ""
      · simp [hname, engineChoice?, Option.filter]
      · simp only [hname, if_false] at h ⊢
        cases hengine : Routing.levelNamed name with
        | error u =>
          rw [hengine] at h
          cases h
        | ok l' =>
          by_cases hunset : l' = .unset <;>
            simp [engineChoice?, hname, hengine, hunset, Except.toOption, Option.filter]

/-- With the first level unknown no level changes. -/
theorem configure_of_unknown {level : String} {u : UnknownLevel} (hlevel : Routing.levelNamed level = .error u)
    (engineLevel : Option String) :
    r.configure level engineLevel stream = (.error u, { r with handlers := [.stream stream] }) := by
  unfold Routing.configure
  rw [hlevel]

/-- With only the engine's level unknown that of the root changes. -/
theorem configure_of_unknown_engine {level name : String} {l : Level} {u : UnknownLevel}
    (hlevel : Routing.levelNamed level = .ok l) (hname : name ≠ "") (hengine : Routing.levelNamed name = .error u) :
    r.configure level (some name) stream = (.error u, { r with handlers := [.stream stream], rootLevel := l }) := by
  unfold Routing.configure
  rw [hlevel]
  simp only [hname, if_false, hengine]

/-- Whatever becomes of the levels, configuring leaves one handler. -/
theorem handlers_configure (r : Routing) (level : String) (engineLevel : Option String) (stream : String) :
    (r.configure level engineLevel stream).2.handlers = [.stream stream] := by
  unfold Routing.configure
  dsimp only
  cases Routing.levelNamed level with
  | error u => rfl
  | ok l =>
    cases engineLevel with
    | none => rfl
    | some name =>
      by_cases hname : name = ""
      · simp only [hname, if_true]
      · simp only [hname, if_false]
        cases Routing.levelNamed name <;> rfl

end Configuring

@[simp] theorem State.configure_fst (st : State) (level : String) (engineLevel : Option String) (stream : String) :
    (st.configure level engineLevel stream).1 = (st.routing.configure level engineLevel stream).1 := rfl

@[simp] theorem State.routing_configure (st : State) (level : String) (engineLevel : Option String)
    (stream : String) :
    (st.configure level engineLevel stream).2.routing = (st.routing.configure level engineLevel stream).2 := rfl

/-- Levels are set, and nothing is decided any more, or they stay as they are. -/
theorem settled_configure (hst : Settled st) (level : String) (engineLevel : Option String) (stream : String) :
    Settled (st.configure level engineLevel stream).2 := by
  unfold State.configure
  cases hlevel : Routing.levelNamed level with
  | ok l => exact settled_of_nothing_decided _ _
  | error u =>
    rw [configure_of_unknown hlevel]
    intro logger level b hplain h
    exact (hst logger level b hplain h).trans (severe_congr rfl rfl hplain).symm

/-! ## Calls one after another -/

/-- A call: logging is configured, a logger is asked for, or something is noted at some instant, perhaps with
a failure. -/
inductive Call where
  | configure (level : String) (engineLevel : Option String) (stream : String)
  | ask (logger : String)
  | log (created : Instant) (n : Note) (failure : Option Noted)

namespace Call

def stream? : Call → Option String
  | configure _ _ stream => some stream
  | ask .. | log .. => none

def after (st : State) : Call → State
  | configure level engineLevel stream => (st.configure level engineLevel stream).2
  | ask logger => st.ask logger
  | log _ n _ => st.after n

end Call

def through (start : State) (calls : List Call) : State :=
  calls.foldl Call.after start

def latestStream? (calls : List Call) : Option String :=
  calls.reverse.findSome? Call.stream?

theorem through_append (start : State) (calls more : List Call) :
    through start (calls ++ more) = through (through start calls) more :=
  List.foldl_append

theorem latestStream?_concat (calls : List Call) (c : Call) :
    latestStream? (calls ++ [c]) = c.stream?.or (latestStream? calls) := by
  rw [latestStream?, List.reverse_append, List.reverse_singleton, List.singleton_append, List.findSome?_cons]
  cases c.stream? <;> rfl

theorem handlers_after (st : State) (c : Call) :
    (c.after st).routing.handlers = match c.stream? with
      | some stream => [.stream stream]
      | none => st.routing.handlers := by
  cases c with
  | configure level engineLevel stream =>
    rw [Call.after, State.routing_configure, handlers_configure, Call.stream?]
  | ask logger => rfl
  | log created n failure => rfl

theorem settled_call (hst : Settled st) (c : Call) : Settled (c.after st) := by
  cases c with
  | configure level engineLevel stream => exact settled_configure hst level engineLevel stream
  | ask logger => exact settled_ask hst logger
  | log created n failure => exact settled_after hst n

/-- Once logging has been configured, there is one handler, for the stream given last. -/
theorem handlers_through {calls : List Call} (h : latestStream? calls = some stream) :
    (through start calls).routing.handlers = [.stream stream] := by
  -- By induction from the last call, which gives the stream or leaves the handler as it is.
  induction calls using List.reverseRecOn with
  | nil => cases h
  | append_singleton calls c ih =>
    rw [through_append]
    show (c.after (through start calls)).routing.handlers = _
    rw [latestStream?_concat] at h
    rw [handlers_after]
    cases hc : c.stream? with
    | some stream' =>
      rw [hc, Option.some_or] at h
      rw [← Option.some.inj h]
    | none =>
      rw [hc, Option.none_or] at h
      exact ih h

theorem settled_through (hstart : Settled start) (calls : List Call) : Settled (through start calls) := by
  induction calls generalizing start with
  | nil => exact hstart
  | cons c calls ih => exact ih (settled_call hstart c)

/-- Only to configure logging changes where lines go. -/
theorem routing_through {calls : List Call} (h : ∀ c ∈ calls, c.stream? = none) :
    (through st calls).routing = st.routing := by
  induction calls generalizing st with
  | nil => rfl
  | cons c calls ih =>
    have hc : (c.after st).routing = st.routing := by
      cases c with
      | configure level engineLevel stream => cases h _ List.mem_cons_self
      | ask logger => rfl
      | log created n failure => rfl
    exact (ih fun c hc => h c (List.mem_cons_of_mem _ hc)).trans hc

/-! ## One destination -/

/-- What holds after calls, whatever the handlers and levels were at the start. -/
structure Delivers (limits : Limits) (errors : Option ErrorOutput) (start : State) (calls : List Call) : Prop where
  /-- Once logging has been configured, there is one handler, for the stream given last. -/
  destination : ∀ stream, latestStream? calls = some stream →
    (through start calls).routing.handlers = [.stream stream]
  /-- A note that comes to it and can be written is one line in that stream and in no other. -/
  due : ∀ stream created n failure, latestStream? calls = some stream → Admitted (through start calls) limits n →
    n.Writable limits created failure →
      ∃ line, Printed line.toList ∧
        (through start calls).written limits errors created n failure = [(stream, line)]
  /-- One that cannot be written is reported where errors are, if there was room to try. -/
  failed : ∀ stream created n failure, latestStream? calls = some stream →
    Admitted (through start calls) limits n → ¬n.Writable limits created failure →
      ∃ p, (n.record created failure).line limits = .error p ∧
        (through start calls).written limits errors created n failure =
          if p.kind = .exhausted then []
          else errors.toList.map fun o => (o.stream, o.report (n.record created failure) p)
  /-- Any other note writes nothing anywhere. -/
  idle : ∀ created n failure, ¬Admitted (through start calls) limits n →
    (through start calls).written limits errors created n failure = []
  /-- What is taken from a logger is what is severe enough, unless it was decided for the logger and the level
  before others came to stand elsewhere. -/
  taken : ∀ logger level, Plain logger ∨ Entries.get? (shownName logger, level) (through start calls).decided = none →
    ((through start calls).takes logger level = true ↔
      0 < level ∧ (through start calls).effectiveLevel logger ≤ level)
  /-- From a call that configures logging without an error to the next one, the engine's loggers have the
  level asked for them, and all others, or all where none is asked for, have the level given first. -/
  levels : ∀ level engineLevel stream, ((through start calls).configure level engineLevel stream).1 = .ok () →
    ∃ l, Routing.levelNamed level = .ok l ∧ ∀ others : List Call, (∀ c ∈ others, c.stream? = none) → ∀ logger,
      (through start (calls ++ .configure level engineLevel stream :: others)).effectiveLevel logger =
        if isEngine (through start (calls ++ .configure level engineLevel stream :: others)).names logger then
          (engineChoice? engineLevel).getD l
        else l
  /-- The engine's loggers are its own and those whose names go on after its name and a dot, if no two dots
  stand next to each other in them. -/
  below : ∀ logger, Plain logger →
    (isEngine (through start calls).names logger = true ↔ logger = engineLogger ∨ StartsAsEngine logger)
  /-- With the first level unknown, no level changes. -/
  unknownLevel : ∀ level engineLevel stream u, Routing.levelNamed level = .error u →
    (through start calls).configure level engineLevel stream =
      (.error u, { through start calls with
        routing := { (through start calls).routing with handlers := [.stream stream] } })
  /-- With only the engine's level unknown, that of the root changes and no other. -/
  unknownEngineLevel : ∀ level name stream l u, Routing.levelNamed level = .ok l → name ≠ "" →
    Routing.levelNamed name = .error u → (through start calls).configure level (some name) stream =
      (.error u, { through start calls with
        routing := { (through start calls).routing with handlers := [.stream stream], rootLevel := l }
        decided := [] })

/-- Logging has one destination, and what is due is written there once. -/
theorem lines_arrive_once (limits : Limits) (hdepth : 2 ≤ limits.depth) (errors : Option ErrorOutput) (start : State)
    (hstart : Settled start) (calls : List Call) : Delivers limits errors start calls where
  destination _ h := handlers_through h
  due _ _ _ _ h hadmitted hwritable := written_of_writable (handlers_through h) hdepth hadmitted hwritable
  failed _ _ _ _ h hadmitted hwritable := written_of_not_writable (handlers_through h) hdepth hadmitted hwritable
  idle _ _ _ h := written_of_not_admitted h
  taken logger level h := by
    have htakes : (through start calls).takes logger level = (through start calls).severe logger level := by
      rcases h with hplain | hundecided
      · exact takes_of_settled (settled_through hstart calls) hplain
      · rw [State.takes, hundecided]
        rfl
    rw [htakes, State.severe, Bool.and_eq_true, decide_eq_true_iff, decide_eq_true_iff]
  levels level engineLevel stream h := by
    rw [State.configure_fst] at h
    obtain ⟨l, hlevel, hr⟩ := configure_ok h
    refine ⟨l, hlevel, ?_⟩
    intro others hothers logger
    have hrouting : (through start (calls ++ .configure level engineLevel stream :: others)).routing =
        ((through start calls).routing.configure level engineLevel stream).2 := by
      rw [← State.routing_configure, through_append]
      exact routing_through hothers
    unfold State.effectiveLevel
    rw [hrouting, hr]
    exact effectiveLevel_eq _ l (fun _ hl => engineChoice?_ne_unset hl) _ logger
  below logger hplain := isEngine_iff hplain
  unknownLevel level engineLevel stream u h := by
    unfold State.configure
    rw [configure_of_unknown h, h]
    rfl
  unknownEngineLevel level name stream l u hlevel hname hengine := by
    unfold State.configure
    rw [configure_of_unknown_engine hlevel hname hengine, hlevel]
    rfl

def unconfigured : State := ⟨⟨[.silent], 51, .unset⟩, [], []⟩

theorem note_of_step_arrives_once :
    let calls : List Call := [.configure "info" (some "debug") "s", .log 0 ⟨"x", .info, .text "m", [], []⟩ none]
    let n : Note := ⟨"step_workflow.step", .debug, .text "%s done", [.text "a"], [("id", .int 1)]⟩
    Settled unconfigured ∧ ∃ line, Printed line.toList ∧
      (through unconfigured calls).written .usual none 0 n none = [("s", line)] := by
  intro calls n
  have hstart : Settled unconfigured := settled_of_nothing_decided _ _
  have hdelivers := lines_arrive_once .usual (by decide) none unconfigured hstart calls
  have hadmitted : Admitted (through unconfigured calls) .usual n :=
    ⟨(hdelivers.taken _ _ (.inl (by decide))).mpr (by decide +kernel), by decide, by decide⟩
  have hroomy : Record.Roomy .usual n.extras := by
    refine ⟨fun v hv => ?_, fun p hp => ?_⟩
    · cases hv
    · have hmem : p ∈ Entries.lastSettings n.extras := (List.mem_filter.mp hp).1
      obtain rfl : p = ("id", .int 1) := List.mem_singleton.mp hmem
      decide
  have hwritable : n.Writable .usual 0 none :=
    ⟨⟨"a done", by decide +kernel⟩, by decide, ⟨0, by decide +kernel⟩, fun _ h => (by cases h), hroomy⟩
  exact ⟨hstart, hdelivers.due "s" 0 n none rfl hadmitted hwritable⟩

/-- Notes that are severe enough for their loggers and still no lines: one of a level at which nothing is ever
taken, and one with a value that stands in the way of its message, which is reported in the stream itself if
that is where errors go. And loggers whose names alone do not tell whether they have the engine's level: one is
below the engine's by name and not in the tree, and when it has come there by another logger, an earlier decision
about it still holds. -/
theorem notes_need_more_than_severity :
    let configured := through unconfigured [.configure "NOTSET" none "s"]
    let unset : Note := ⟨"x", .unset, .text "m", [], []⟩
    let standing : Note := ⟨"x", .info, .text "m", [], [(messageName, .null)]⟩
    let divided := through unconfigured [.configure "INFO" (some "DEBUG") "s"]
    let apart : Note := ⟨"step_workflow..x", .debug, .text "m", [], []⟩
    let moved := (divided.after apart).ask "step_workflow."
    configured.effectiveLevel "x" ≤ unset.level ∧ unset.Writable .usual 0 none ∧
      (∀ errors, configured.written .usual errors 0 unset none = []) ∧
    configured.effectiveLevel "x" ≤ standing.level ∧ (∃ text, standing.message .usual = .ok text) ∧
      configured.written .usual none 0 standing none = [] ∧
      (∃ p, ∀ report, configured.written .usual (some ⟨"s", report⟩) 0 standing none =
        [("s", report (standing.record 0) p)]) ∧
    StartsAsEngine apart.logger ∧ divided.effectiveLevel apart.logger = .info ∧
    moved.effectiveLevel apart.logger = .debug ∧ apart.Writable .usual 0 none ∧
      (∀ errors, moved.written .usual errors 0 apart none = []) := by
  intro configured unset standing divided apart moved
  have hdatable : Record.Datable 0 := ⟨0, by decide +kernel⟩
  have hunset : ¬Admitted configured .usual unset := fun h => absurd h.taken (by decide)
  have hstanding : Admitted configured .usual standing := ⟨by decide, by decide, by decide⟩
  have hclear : ¬standing.Writable .usual 0 none := fun h => h.clear _ List.mem_cons_self rfl
  have hwritten : ∀ errors : Option ErrorOutput, configured.written .usual errors 0 standing none =
      errors.toList.map fun o => (o.stream, o.report (standing.record 0) (.notCallable "NoneType")) := by
    intro errors
    obtain ⟨p, hp, hwritten⟩ := written_of_not_writable (handlers_through rfl) (by decide) hstanding hclear
    have hline : (standing.record 0).line = .error (.notCallable "NoneType") := by decide +kernel
    obtain rfl := Except.error.inj (hline.symm.trans hp)
    exact hwritten
  have hapart : ¬Admitted moved .usual apart := fun h => absurd h.taken (by decide +kernel)
  refine ⟨by decide, writable_text hdatable,
    fun _ => written_of_not_admitted hunset, by decide, ⟨"m", rfl⟩, hwritten none,
    ⟨_, fun report => hwritten (some ⟨"s", report⟩)⟩, by decide, by decide +kernel, by decide +kernel,
    writable_text hdatable,
    fun _ => written_of_not_admitted hapart⟩

end ApprovalFlow.Logging
