import Mathlib.Data.List.GetD
import RadarRT.Lib.Reader
import RadarRT.System.Ordering

/-!
# The log can be read back

`formatLine` is the one place where a record becomes text, and nothing in the program reads that
text again. `readLog` is what a reader of the log file may assume: it takes the text apart line by
line, into the results of the pool and the stalls of the watchdog. In every state of every run,
whichever thread has failed, it reads what a sink has been given as the records the logger popped,
in order, but for at most the last of them.
-/

namespace RadarRT

open Reader

variable {F : Type} {N : ℕ} {env : Env F} {beat : ℕ} {o : Outside F} {sh sh' : Shared F}

/-! ## A reader for the lines -/

/-- What a line of the log says. -/
inductive LogEntry where
  /-- A result of the pool: microseconds, the verdict, the peak as printed. -/
  | result (micros : ℤ) (targetDetected : Bool) (peakMagnitude : String)
  /-- A stall the watchdog reported: microseconds, the heartbeat, its age in milliseconds. -/
  | stall (micros : ℤ) (name : String) (ageMs : ℤ)
deriving DecidableEq, Repr, Inhabited

/-- The mark around the name of a stalled heartbeat. -/
def quoteMark : Char := Char.ofNat 39

def word (s : String) : Reader Char Unit := literal s.toList

/-- The part every line begins with: microseconds, level and source. -/
def readHeader : Reader Char (ℤ × List Char × List Char) := do
  word "[t="
  let micros ← integer 'u'
  word "s] ["
  let level ← upTo ']'
  word " ["
  let source ← upTo ']'
  word " "
  return (micros, level, source)

def readFlag (flag : List Char) : Option Bool :=
  if flag = ['1'] then some true else if flag = ['0'] then some false else none

def readResult (micros : ℤ) : Reader Char LogEntry := do
  word "detected="
  let flag ← upTo ' '
  let targetDetected ← StateT.lift (readFlag flag)
  word "peak="
  let peak ← upTo '\n'
  return .result micros targetDetected (String.ofList peak)

def readStall (micros : ℤ) : Reader Char LogEntry := do
  word "stalled worker '"
  let name ← upTo quoteMark
  word " Running for "
  let ageMs ← integer 'm'
  word "s\n"
  return .stall micros (String.ofList name) ageMs

/-- A line: only the pool logs at level `INFO` and only the watchdog at level `ERROR`. -/
def readLine : Reader Char LogEntry := do
  let (micros, level, source) ← readHeader
  if level = "INFO".toList ∧ source = "Dsp".toList then readResult micros
  else if level = "ERROR".toList ∧ source = "Watchdog".toList then readStall micros
  else StateT.lift none

def readLog (text : String) : Option (List LogEntry) := readAll readLine text.toList

/-! ## It takes what `formatLine` writes -/

/-- What `formatLine` writes before the payload. -/
def header (record : LogRecord F) : String :=
  "[t=" ++ toString (record.timestamp.tdiv 1000) ++ "us] [" ++ levelName record.level ++ "] [" ++
    sourceName record.source ++ "] "

theorem takes_header (record : LogRecord F) :
    Takes readHeader (header record).toList
      (record.timestamp.tdiv 1000, (levelName record.level).toList,
        (sourceName record.source).toList) := by
  have hlevel : ']' ∉ (levelName record.level).toList := by
    cases record.level <;> decide
  have hsource : ']' ∉ (sourceName record.source).toList := by
    cases record.source <;> decide
  have htext : (header record).toList =
      "[t=".toList ++ (((toString (record.timestamp.tdiv 1000)).toList ++ ['u']) ++
        ("s] [".toList ++ (((levelName record.level).toList ++ [']']) ++
          (" [".toList ++ (((sourceName record.source).toList ++ [']']) ++
            (" ".toList ++ [])))))) := by
    simp [header]
  rw [htext]
  unfold readHeader word
  refine (Takes.literal _).bind ?_
  refine (Takes.integer (by decide) (by decide) _).bind ?_
  refine (Takes.literal _).bind ?_
  refine (Takes.upTo hlevel).bind ?_
  refine (Takes.literal _).bind ?_
  refine (Takes.upTo hsource).bind ?_
  exact (Takes.literal _).bind (Takes.pure _)

theorem formatLine_eq (showFloat : F → String) (record : LogRecord F) :
    (formatLine showFloat record).toList = (header record).toList ++
      ((match record.result with
        | some result =>
          "detected=" ++ (if result.targetDetected then "1" else "0") ++ " peak=" ++
            showFloat result.peakMagnitude
        | none => record.message).toList ++ ['\n']) := by
  unfold formatLine header
  cases record.result <;> simp

/-- The printed form of a number has no line break in it. -/
def Env.PrintsPlain (env : Env F) : Prop := ∀ x, '\n' ∉ (env.showFloat x).toList

theorem takes_result (hplain : env.PrintsPlain) (r : ProcessedSignal F) :
    Takes readLine (formatLine env.showFloat (toLogRecord r)).toList
      (.result (r.timestamp.tdiv 1000) r.targetDetected (env.showFloat r.peakMagnitude)) := by
  have hflag : ' ' ∉ (if r.targetDetected then "1" else "0").toList := by
    cases r.targetDetected <;> decide
  have hread : readFlag (if r.targetDetected then "1" else "0").toList = some r.targetDetected := by
    cases r.targetDetected <;> decide
  have htext : (formatLine env.showFloat (toLogRecord r)).toList =
      (header (toLogRecord r)).toList ++ ("detected=".toList ++
        (((if r.targetDetected then "1" else "0").toList ++ [' ']) ++
          ([] ++ ("peak=".toList ++
            (((env.showFloat r.peakMagnitude).toList ++ ['\n']) ++ []))))) := by
    rw [formatLine_eq]
    simp [toLogRecord]
  rw [htext]
  unfold readLine
  refine (takes_header _).bind ?_
  show Takes (if _ then _ else _) _ _
  rw [if_pos ⟨rfl, rfl⟩]
  unfold readResult word
  refine (Takes.literal _).bind ?_
  refine (Takes.upTo hflag).bind ?_
  refine (Takes.lift hread).bind ?_
  refine (Takes.literal _).bind ?_
  refine (Takes.upTo (hplain _)).bind ?_
  rw [String.ofList_toList]
  exact Takes.pure _

theorem takes_stall (showFloat : F → String) {name : String} (hname : quoteMark ∉ name.toList)
    (age : Duration) (now : Time) :
    Takes readLine (formatLine showFloat (stallRecord name age now)).toList
      (.stall (now.tdiv 1000) name (age.tdiv 1000000)) := by
  have htext : (formatLine showFloat (stallRecord name age now)).toList =
      (header (stallRecord (F := F) name age now)).toList ++ ("stalled worker '".toList ++
        ((name.toList ++ [quoteMark]) ++ (" Running for ".toList ++
          (((toString (age.tdiv 1000000)).toList ++ ['m']) ++ ("s\n".toList ++ []))))) := by
    rw [formatLine_eq]
    simp [stallRecord, quoteMark]
  rw [htext]
  unfold readLine
  refine (takes_header _).bind ?_
  show Takes (if _ then _ else if _ then _ else _) _ _
  rw [if_neg (by simp [stallRecord, levelName]), if_pos ⟨rfl, rfl⟩]
  unfold readStall word
  refine (Takes.literal _).bind ?_
  refine (Takes.upTo hname).bind ?_
  refine (Takes.literal _).bind ?_
  refine (Takes.integer (by decide) (by decide) _).bind ?_
  refine (Takes.literal _).bind ?_
  rw [String.ofList_toList]
  exact Takes.pure _

/-! ## What the records of an application are -/

theorem foldl_registerHeartbeat_names (names : List String) (r : HeartbeatRegistry) :
    (names.foldl HeartbeatRegistry.registerHeartbeat r).names = r.names ++ names := by
  induction names generalizing r with
  | nil => simp
  | cons name names ih =>
    rw [List.foldl_cons, ih]
    simp [HeartbeatRegistry.registerHeartbeat]

/-- No heartbeat has a quotation mark in its name. -/
theorem quoteMark_notMem_names {name : String} (h : name ∈ (initialRegistry N).names) :
    quoteMark ∉ name.toList := by
  have hnames : (initialRegistry N).names = ["producer"] ++
      (List.range N).map (fun i => "dsp-worker-" ++ toString i) ++ ["logger"] := by
    show (List.foldl _ _ _ : HeartbeatRegistry).names ++ ["logger"] = _
    rw [foldl_registerHeartbeat_names]
    rfl
  rw [hnames] at h
  simp only [List.mem_append, List.mem_singleton, List.mem_map] at h
  rcases h with (rfl | ⟨i, -, rfl⟩) | rfl
  · decide
  · intro hmem
    rw [String.toList_append, List.mem_append] at hmem
    rcases hmem with hmem | hmem
    · revert hmem
      decide
    · -- the number of a worker is made of digits
      have hdigit : quoteMark.isDigit = true :=
        Nat.isDigit_of_mem_toDigits (b := 10) (by decide) (by decide) (by simpa using hmem)
      revert hdigit
      decide
  · decide

/-- The entry says of the record all that the log keeps of it. -/
inductive Describes (env : Env F) (N : ℕ) : LogEntry → LogRecord F → Prop
  | result (r : ProcessedSignal F) :
    Describes env N
      (.result (r.timestamp.tdiv 1000) r.targetDetected (env.showFloat r.peakMagnitude))
      (toLogRecord r)
  | stall {name : String} {age : Duration} (now : Time) : name ∈ (initialRegistry N).names →
    env.timeout < age →
    Describes env N (.stall (now.tdiv 1000) name (age.tdiv 1000000)) (stallRecord name age now)

theorem Describes.takes {e : LogEntry} {r : LogRecord F} (h : Describes env N e r)
    (hplain : env.PrintsPlain) : Takes readLine (formatLine env.showFloat r).toList e := by
  cases h with
  | result r => exact takes_result hplain r
  | stall now hname _ => exact takes_stall env.showFloat (quoteMark_notMem_names hname) _ now

/-- The watchdog is at a registered heartbeat, and reports only what is over the timeout. -/
def WatchdogPc.Finds (env : Env F) (n : ℕ) : WatchdogPc → Prop
  | .loadTimestamp sc => sc.index < n
  | .recordWatchdogStall sc age | .push sc age => sc.index < n ∧ env.timeout < age
  | _ => True

/-- Every record the output queue accepted is a result or a stall the log can describe. -/
structure Describable (env : Env F) (s : State F N) : Prop where
  accepted : ∀ r ∈ s.shared.output.accepted, ∃ e, Describes env N e r
  watchdog : s.watchdog.Finds env (initialRegistry N).size

theorem Ledger.mem_accepted_of_push {α : Type} {l q : Ledger α} {v : α} {f : Bool}
    {r : Except QueueError Bool} (h : l.push v f = some (r, q)) {x : α} (hx : x ∈ q.accepted) :
    x ∈ l.accepted ∨ x = v := by
  obtain ⟨-, rfl⟩ := push_result h
  rcases l.enqueue_accepted v f with hacc | hacc
  · rw [hacc] at hx
    simpa using hx
  · rw [hacc] at hx
    exact .inl hx

theorem WorkerMove.describable {pc pc' : WorkerPc F} (h : WorkerMove env beat o sh pc sh' pc')
    {r : LogRecord F} (hr : r ∈ sh'.output.accepted) :
    r ∈ sh.output.accepted ∨ ∃ p, r = toLogRecord p := by
  cases h with
  | @pushed p _ _ _ hp => exact (Ledger.mem_accepted_of_push hp hr).imp_right fun h => ⟨p, h⟩
  | @pushThrew p _ _ _ _ hp => exact (Ledger.mem_accepted_of_push hp hr).imp_right fun h => ⟨p, h⟩
  | _ => exact .inl hr

theorem WatchdogMove.finds {pc pc' : WatchdogPc} (h : WatchdogMove env o sh pc sh' pc')
    (hpc : pc.Finds env sh.registry.size) : pc'.Finds env sh.registry.size := by
  cases h with
  | running hlt _ => exact hlt
  | stalled hlt => exact ⟨hpc, hlt⟩
  | recordWatchdogStall => exact hpc
  | _ => trivial

theorem WatchdogMove.describable {pc pc' : WatchdogPc} (h : WatchdogMove env o sh pc sh' pc')
    (hpc : pc.Finds env sh.registry.size) {r : LogRecord F} (hr : r ∈ sh'.output.accepted) :
    r ∈ sh.output.accepted ∨ ∃ name ∈ sh.registry.names, ∃ age > env.timeout, ∃ now,
      r = stallRecord name age now := by
  have hname : ∀ {i : ℕ}, i < sh.registry.size → sh.registry.names.getD i "" ∈
      sh.registry.names := by
    intro i hi
    rw [List.getD_eq_getElem _ _ hi]
    exact List.getElem_mem hi
  cases h with
  | @pushed sc age _ _ _ hp =>
    exact (Ledger.mem_accepted_of_push hp hr).imp_right fun h =>
      ⟨_, hname hpc.1, age, hpc.2, sc.now, h⟩
  | @pushThrew sc age _ _ _ _ hp =>
    exact (Ledger.mem_accepted_of_push hp hr).imp_right fun h =>
      ⟨_, hname hpc.1, age, hpc.2, sc.now, h⟩
  | _ => exact .inl hr

theorem describable_move {s s' : State F N} {a : Action F N} (h : Move env s a s')
    (hf : Fixed s) (hs : Describable env s) : Describable env s' := by
  obtain ⟨hacc, hdog⟩ := hs
  have hsize : s.shared.registry.size = (initialRegistry N).size := by
    unfold HeartbeatRegistry.size
    rw [hf.names]
  cases h with
  | main hm => cases hm <;> first | exact ⟨hacc, hdog⟩ | exact ⟨hacc, trivial⟩
  | producer hm =>
    refine ⟨?_, hdog⟩
    rw [hm.output_eq.1]
    exact hacc
  | worker hm =>
    refine ⟨?_, hdog⟩
    intro r hr
    rcases hm.describable hr with hr | ⟨p, rfl⟩
    · exact hacc r hr
    · exact ⟨_, .result p⟩
  | logger hm =>
    refine ⟨?_, hdog⟩
    rw [hm.output.accepted]
    exact hacc
  | watchdog hm =>
    rw [← hsize] at hdog
    refine ⟨?_, hsize ▸ hm.finds hdog⟩
    intro r hr
    rcases hm.describable hdog hr with hr | ⟨name, hname, age, hage, now, rfl⟩
    · exact hacc r hr
    · exact ⟨_, .stall now (hf.names ▸ hname) hage⟩

theorem Reachable.describable {s : State F N} (h : Reachable env s) : Describable env s := by
  have hall : Fixed s ∧ Describable env s :=
    h.invariant (I := fun s => Fixed s ∧ Describable env s)
      (fun t₀ => ⟨⟨rfl, rfl, rfl⟩, by simp [initial, Ledger.opened], trivial⟩)
      fun s a s' hm hs => ⟨fixed_move hm hs.1, describable_move hm hs.1 hs.2⟩
  exact hall.2

/-! ## What a sink has been given -/

/-- The lines written to a sink, in order. -/
def writtenLines (events : List SinkEvent) : List String :=
  events.filterMap fun
    | .write line => some line
    | .flush => none

/-- The text of a sink: a file, or what went to the console. -/
def sinkText (events : List SinkEvent) : String := String.join (writtenLines events)

/-- Sink `k` has the lines of the popped records, all of them but at most the last. -/
def Given (env : Env F) (sh : Shared F) (k : ℕ) : Prop :=
  ∃ n, sh.output.popped.length ≤ n + 1 ∧
    writtenLines (sh.sinks k) = linesOf env (sh.output.popped.take n)

theorem writtenLines_trace (pc : LoggerPc F) (done : List String) (k : ℕ) :
    writtenLines (pc.sinkTrace env done k) =
      done ++ if k < pc.written then pc.line env else [] := by
  unfold writtenLines LoggerPc.sinkTrace
  split <;> split <;> simp [List.filterMap_map]

theorem length_line (env : Env F) (pc : LoggerPc F) : (pc.line env).length ≤ 1 := by
  cases pc <;> simp [LoggerPc.line]

theorem LoggerPc.given {pc : LoggerPc F} {done : List String} {k : ℕ}
    (hlines : linesOf env sh.output.popped = done ++ pc.line env)
    (hsink : sh.sinks k = pc.sinkTrace env done k) : Given env sh k := by
  have hlen : sh.output.popped.length = done.length + (pc.line env).length := by
    rw [← List.length_append, ← hlines]
    simp [linesOf]
  have hline := length_line env pc
  unfold Given
  rw [hsink, writtenLines_trace]
  split
  · refine ⟨sh.output.popped.length, by omega, ?_⟩
    rw [List.take_length, hlines]
  · refine ⟨done.length, by omega, ?_⟩
    unfold linesOf at hlines ⊢
    rw [List.map_take, hlines, List.take_left, List.append_nil]

/-- A step of the logger into or after its exception handler touches neither side. -/
theorem LoggerMove.threw_same {pc pc' : LoggerPc F} (h : LoggerMove env beat o sh pc sh' pc')
    (hthrew : pc'.threw = true) : sh'.output = sh.output ∧ sh'.sinks = sh.sinks := by
  cases h with
  | popFailed | readOutputSizeFailed | formatLineFailed | writeFailed | flushFailed
  | recordThreadException | requestShutdown => exact ⟨rfl, rfl⟩
  | _ => cases hthrew

structure Rendered (env : Env F) (s : State F N) : Prop where
  calm : s.logger.threw = false → ∃ done,
    linesOf env s.shared.output.popped = done ++ s.logger.line env ∧
      ∀ k < env.sinkCount, s.shared.sinks k = s.logger.sinkTrace env done k
  given : ∀ k < env.sinkCount, Given env s.shared k

theorem Rendered.same {s s' : State F N} (h : Rendered env s) (hl : s'.logger = s.logger)
    (hp : s'.shared.output.popped = s.shared.output.popped)
    (hk : s'.shared.sinks = s.shared.sinks) : Rendered env s' := by
  refine ⟨?_, ?_⟩
  · rw [hl, hp, hk]
    exact h.calm
  · unfold Given
    rw [hp, hk]
    exact h.given

theorem Ledger.popped_of_push {α : Type} {l q : Ledger α} {v : α} {f : Bool}
    {r : Except QueueError Bool} (h : l.push v f = some (r, q)) : q.popped = l.popped := by
  obtain ⟨-, rfl⟩ := push_result h
  exact enqueue_popped l v f

theorem WorkerMove.popped_sinks {pc pc' : WorkerPc F} (h : WorkerMove env beat o sh pc sh' pc') :
    sh'.output.popped = sh.output.popped ∧ sh'.sinks = sh.sinks := by
  cases h with
  | pushed hp | pushThrew _ hp => exact ⟨Ledger.popped_of_push hp, rfl⟩
  | _ => exact ⟨rfl, rfl⟩

theorem WatchdogMove.popped_sinks {pc pc' : WatchdogPc} (h : WatchdogMove env o sh pc sh' pc') :
    sh'.output.popped = sh.output.popped ∧ sh'.sinks = sh.sinks := by
  cases h with
  | pushed hp | pushThrew _ hp => exact ⟨Ledger.popped_of_push hp, rfl⟩
  | _ => exact ⟨rfl, rfl⟩

theorem rendered_move {s s' : State F N} {a : Action F N} (h : Move env s a s')
    (hst : Started s) (hs : Rendered env s) : Rendered env s' := by
  cases h with
  | main hm =>
    have hstart := hst.starting
    cases hm with
    | startLogger hm =>
      simp only [State.Starting, hm] at hstart
      obtain ⟨done, hlines, hsinks⟩ := hs.calm (by rw [hstart]; rfl)
      rw [hstart] at hlines hsinks
      exact ⟨fun _ => ⟨done, hlines, hsinks⟩, hs.given⟩
    | _ => exact hs.same rfl rfl rfl
  | producer hm =>
    obtain ⟨ho, -, hk⟩ := hm.output_eq
    exact hs.same rfl (by simp only [ho]) hk
  | worker hm => exact hs.same rfl hm.popped_sinks.1 hm.popped_sinks.2
  | logger hm =>
    rename_i o sh pc
    cases hthrew : pc.threw with
    | false =>
      obtain ⟨done, hlines, hsinks⟩ := hs.calm (hm.threw_mono hthrew)
      obtain ⟨done', hlines', hsinks'⟩ := hm.trace hthrew hlines hsinks
      exact ⟨fun _ => ⟨done', hlines', hsinks'⟩, fun k hk => LoggerPc.given hlines' (hsinks' k hk)⟩
    | true =>
      obtain ⟨ho, hk⟩ := hm.threw_same hthrew
      refine ⟨fun hcalm => ?_, ?_⟩
      · rw [hthrew] at hcalm
        cases hcalm
      · unfold Given
        simp only [ho, hk]
        exact hs.given
  | watchdog hm => exact hs.same rfl hm.popped_sinks.1 hm.popped_sinks.2

theorem Reachable.rendered {s : State F N} (h : Reachable env s) : Rendered env s := by
  have hall : Started s ∧ Rendered env s :=
    h.invariant (I := fun s => Started s ∧ Rendered env s)
      (fun t₀ => ⟨started_initial env t₀, fun _ => ⟨[], rfl, fun _ _ => rfl⟩,
        fun _ _ => ⟨0, by simp [initial, Ledger.opened, Ledger.popped], rfl⟩⟩)
      fun s a s' hm hs => ⟨started_move hm hs.1, rendered_move hm hs.1 hs.2⟩
  exact hall.2

/-- `Given`, with every line there once the logger has finished. -/
theorem Reachable.given_all {s : State F N} (h : Reachable env s) {k : ℕ}
    (hk : k < env.sinkCount) :
    ∃ n, s.shared.output.popped.length ≤ n + 1 ∧
      writtenLines (s.shared.sinks k) = linesOf env (s.shared.output.popped.take n) ∧
      (s.logger = .finished false → s.shared.output.popped.length ≤ n) := by
  by_cases hl : s.logger = .finished false
  · obtain ⟨done, hlines, hsinks⟩ := h.rendered.calm (by rw [hl]; rfl)
    refine ⟨s.shared.output.popped.length, by omega, ?_, fun _ => le_rfl⟩
    rw [hsinks k hk, writtenLines_trace, hl, List.take_length, hlines, hl]
    simp [LoggerPc.written, LoggerPc.line]
  · obtain ⟨n, hn, hlines⟩ := h.rendered.given k hk
    exact ⟨n, hn, hlines, fun hfin => absurd hfin hl⟩

/-! ## The log, read back -/

/-- The lines of records the log can describe, put one after the other, are read back. -/
theorem readLog_linesOf (hplain : env.PrintsPlain) {records : List (LogRecord F)}
    (h : ∀ r ∈ records, ∃ e, Describes env N e r) :
    ∃ entries, readLog (String.join (linesOf env records)) = some entries ∧
      List.Forall₂ (Describes env N) entries records := by
  choose! entry hentry using h
  refine ⟨records.map entry, ?_, ?_⟩
  · have htext : (String.join (linesOf env records)).toList =
        (records.map fun r => (formatLine env.showFloat r).toList).flatten := by
      rw [String.toList_join, List.flatMap_def, linesOf, List.map_map]
      rfl
    unfold readLog
    rw [htext]
    refine readAll_flatten ?_ ?_
    · rw [List.forall₂_map_left_iff, List.forall₂_map_right_iff, List.forall₂_same]
      exact fun r hr => (hentry r hr).takes hplain
    · intro t ht
      obtain ⟨r, -, rfl⟩ := List.mem_map.mp ht
      rw [formatLine_eq]
      simp
  · rw [List.forall₂_map_left_iff, List.forall₂_same]
    exact hentry

/-- In every reachable state the text of every sink can be read back. It describes the records
the logger popped, in the order they were popped: all of them once the logger has finished, and
before that, or when the logger died of an exception, all but at most the last. -/
theorem log_reads_back (hplain : env.PrintsPlain) {s : State F N} (h : Reachable env s)
    {k : ℕ} (hk : k < env.sinkCount) :
    ∃ n entries, readLog (sinkText (s.shared.sinks k)) = some entries ∧
      List.Forall₂ (Describes env N) entries (s.shared.output.popped.take n) ∧
      s.shared.output.popped.length ≤ n + 1 ∧
      (s.logger = .finished false → s.shared.output.popped.length ≤ n) := by
  obtain ⟨n, hn, hlines, hfin⟩ := h.given_all hk
  have hmem : ∀ r ∈ s.shared.output.popped.take n, ∃ e, Describes env N e r := by
    intro r hr
    apply h.describable.accepted
    rw [← s.shared.output.accepted_perm.mem_iff]
    simp [List.mem_of_mem_take hr]
  obtain ⟨entries, hread, hdesc⟩ := readLog_linesOf hplain hmem
  refine ⟨n, entries, ?_, hdesc, hn, hfin⟩
  unfold sinkText
  rw [hlines]
  exact hread

theorem LoggerPc.finished_of_drained {pc : LoggerPc F} (hj : pc.joined = true)
    (hd : pc.drained = true) : pc = .finished false := by
  cases pc with
  | finished died =>
    cases died with
    | true => cases hd
    | false => rfl
  | flush k => cases hj
  | _ => cases hd

/-- Two signals a period apart, and the two entries in the log. -/
theorem log_reads_back_two :
    silentDefaults.PrintsPlain ∧ ∃ s : State ℕ 1, Reachable silentDefaults s ∧
      ∃ entries, readLog (sinkText (s.shared.sinks 0)) = some entries ∧
        List.Forall₂ (Describes silentDefaults 1) entries s.shared.output.popped ∧
        entries.length = 2 := by
  have hplain : silentDefaults.PrintsPlain := by
    intro x hmem
    have hdigit : '\n'.isDigit = true :=
      Nat.isDigit_of_mem_toDigits (b := 10) (n := x) (by decide) (by decide)
        (by simpa [silentDefaults, silentEnv] using hmem)
    revert hdigit
    decide
  obtain ⟨s, hrun, hdrained, hjoined, hpop⟩ := Lts.exists_run
    (step silentDefaults) (initial silentDefaults 1 0)
    (plainly 5 0 .main ++ plainly 13 0 .producer ++ [elapsing .producer] ++
      plainly 12 1000000 .producer ++ plainly 31 1000000 (.worker 0) ++
      plainly 6 1000000 .main ++ plainly 1 1000000 .producer ++ plainly 2 1000000 (.worker 0) ++
      plainly 4 1000000 .main ++ plainly 25 1000000 .logger)
    (fun s => s.logger.drained = true ∧ s.logger.joined = true ∧
      s.shared.output.popped.length = 2) (by decide +kernel)
  have hl := LoggerPc.finished_of_drained hjoined hdrained
  obtain ⟨n, entries, hread, hdesc, -, hall⟩ :=
    log_reads_back hplain (reachable_of_run hrun) (k := 0) Nat.one_pos
  rw [List.take_of_length_le (hall hl)] at hdesc
  exact ⟨hplain, s, reachable_of_run hrun, entries, hread, hdesc, hdesc.length_eq.trans hpop⟩

end RadarRT
