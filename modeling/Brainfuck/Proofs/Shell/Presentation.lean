import Brainfuck.Proofs.Color.Controls
import Brainfuck.Proofs.Shell.Untouched
import Brainfuck.Session

/-!
# A session and how it looks

How a session is presented has no part in what it comes to. And colors are nothing but control
sequences: whatever the shell says is clean text, so that the colored stream without its control
sequences is the stream without colors, unless the program or a command line brings in an escape
byte of its own.
-/

namespace Brainfuck

open Text (Clean escapeByte clean_ofList clean_nat clean_int clean_iff_encode)

/-- How a session is presented. -/
structure Presentation where
  settings : Settings
  colored : Bool

namespace Presentation

def palette (v : Presentation) : Option Palette :=
  if v.colored then some v.settings.palette else none

/-- A shell whose program has not started. -/
def opened (v : Presentation) (p : Program) (input : List UInt8) (schedule : Schedule) : Shell :=
  (Session.start p input v.settings schedule).shell

/-- The bytes that a shell has shown. -/
def stream (v : Presentation) (s : Shell) : List UInt8 :=
  s.transcript.bytes v.palette

end Presentation

namespace Shell

/-- What the shell has said itself is clean. -/
def SaysClean (s : Shell) : Prop :=
  ∀ span ∈ s.transcript.toList, ∀ text, span.text? = some text → Clean text

namespace SaysClean

variable {s t : Shell}

theorem put (h : s.SaysClean) {span : Span}
    (clean : ∀ text, span.text? = some text → Clean text) : (s.put span).SaysClean := by
  intro other mem
  rcases Array.mem_push.mp (Array.mem_toList_iff.mp mem) with earlier | rfl
  · exact h other (Array.mem_toList_iff.mpr earlier)
  · exact clean

theorem tells (h : s.SaysClean) (more : s.Tells t) : t.SaysClean := by
  induction more with
  | nothing => exact h
  | @put t span text _ reads clean ih =>
    refine ih.put fun other reads' => ?_
    rw [reads] at reads'
    exact Option.some.inj reads' ▸ clean

/-- Another debugger says nothing. -/
theorem replaced (h : s.SaysClean) (d : Debugger) : ({ s with debugger := d } : Shell).SaysClean :=
  h

theorem note (h : s.SaysClean) {message : String} (clean : Clean message) :
    (s.note message).SaysClean :=
  h.tells (.note .nothing clean)

theorem say (h : s.SaysClean) (tone : Tone) {message : String} (clean : Clean message) :
    (s.say tone message).SaysClean :=
  h.tells (.say .nothing tone clean)

theorem report (h : s.SaysClean) (outcome : Outcome) : (s.report outcome).SaysClean :=
  h.tells (.report .nothing outcome)

/-- Output is not said by the shell. -/
theorem drain (h : s.SaysClean) : s.drain.SaysClean := by
  unfold Shell.drain
  simp only
  split
  · exact h
  · exact (h.replaced _).put nofun

/-! ### Points -/

theorem settle (h : s.SaysClean) {α : Type} (request : Debugger.Request α)
    {goOn : Shell → α → Shell}
    (goesOn : ∀ t : Shell, t.SaysClean → ∀ value, (goOn t value).SaysClean) :
    (s.settle request goOn).SaysClean := by
  unfold Shell.settle
  rcases request s.debugger with ⟨after, fault | value⟩
  · exact (h.replaced after).tells (.refuse .nothing fault)
  · exact goesOn _ (h.replaced after) value

theorem stopAt (h : s.SaysClean) (index : Nat) : (s.stopAt index).SaysClean :=
  h.settle _ fun _ asked _ => asked.note (.append (clean_ofList rfl) (clean_nat _))

theorem breakAt (h : s.SaysClean) (line : Nat) : (s.breakAt line).SaysClean := by
  refine h.settle _ fun _ asked added => ?_
  split
  · exact asked.say _ (.append (.append (clean_ofList rfl) (clean_nat _)) (clean_ofList rfl))
  · exact asked.note (.append (clean_ofList rfl) (clean_nat _))

theorem watch (h : s.SaysClean) (address : Int) : (s.watch address).SaysClean :=
  h.settle _ fun _ asked _ => asked.note (.append (clean_ofList rfl) (clean_int _))

theorem deleteBreakpoint (h : s.SaysClean) (ordinal : Nat) :
    (s.deleteBreakpoint ordinal).SaysClean :=
  h.settle _ fun _ asked _ => asked.note
    (.append (.append (clean_ofList rfl) (clean_nat _)) (clean_ofList rfl))

theorem deleteWatch (h : s.SaysClean) (ordinal : Nat) : (s.deleteWatch ordinal).SaysClean := by
  refine h.settle _ fun _ asked address => asked.note ?_
  have named : Clean ("Watchpoint " ++ toString ordinal ++ " at address ") :=
    .append (.append (clean_ofList rfl) (clean_nat _)) (clean_ofList rfl)
  exact .append (.append named (clean_int _)) (clean_ofList rfl)

theorem deleteStopPoint (h : s.SaysClean) : s.deleteStopPoint.SaysClean := by
  refine (h.replaced _).note ?_
  split
  · exact clean_ofList rfl
  · exact clean_ofList rfl

theorem clear (h : s.SaysClean) (target : Option Target) : (s.clear target).SaysClean := by
  rcases target with _ | _ | _ | _ <;> exact (h.replaced _).note (clean_ofList rfl)

theorem awaitExit (h : s.SaysClean) : s.awaitExit.SaysClean := by
  refine (h.replaced _).note ?_
  split
  · exact clean_ofList rfl
  · exact clean_ofList rfl

/-! ### Steps and runs -/

theorem stepOnce (h : s.SaysClean) : s.stepOnce.1.SaysClean :=
  (h.replaced _).drain

theorem step (h : s.SaysClean) (times : Nat) : (s.step times).SaysClean := by
  induction times generalizing s with
  | zero => exact h.tells (.print .nothing (clean_ofList rfl))
  | succ times ih =>
    rw [step_succ]
    split
    · exact ih h.stepOnce
    · exact h.stepOnce.report _

theorem detailed (h : s.SaysClean) (times : Nat) : (s.detailed times).SaysClean := by
  induction times generalizing s with
  | zero => exact h
  | succ times ih =>
    have calm : s.calm.SaysClean := h.replaced _
    have made : s.calm.announced.stepOnce.1.showWindow.SaysClean :=
      (calm.tells (.announced .nothing)).stepOnce.tells (.showWindow .nothing)
    rw [detailed_if]
    split
    · exact calm.report _
    · split
      · exact ih made
      · exact made.report _

theorem proceed (h : s.SaysClean) (fuel : Nat) : (s.proceed fuel).1.SaysClean := by
  rw [Shell.proceed]
  rcases s.debugger.advance fuel with ⟨d, _ | outcome⟩
  · exact (h.replaced d).drain
  · exact (h.replaced d).drain.report outcome

/-! ### Command lines -/

theorem whenRunning (h : s.SaysClean) {begin : Shell → Shell} (begins : (begin s).SaysClean) :
    (s.whenRunning begin).1.SaysClean := by
  rw [Shell.whenRunning]
  split
  · exact begins
  · exact h.say _ (clean_ofList rfl)

theorem dispatch (h : s.SaysClean) (command : Command) : (s.dispatch command).1.SaysClean := by
  cases command with
  | run => exact h.replaced _
  | resume => exact h.whenRunning h
  | untilExit => exact h.whenRunning h.awaitExit
  | step times => exact h.step times
  | detailed times => exact h.detailed _
  | stop index =>
    cases index with
    | none => exact h.tells (dispatch_of_looks rfl).1
    | some index => exact h.stopAt index
  | breakAt line => exact h.breakAt line
  | deleteStop => exact h.deleteStopPoint
  | deleteBreakpoint ordinal => exact h.deleteBreakpoint ordinal
  | deleteWatch ordinal => exact h.deleteWatch ordinal
  | watch address => exact h.watch address
  | reset => exact (h.replaced _).note (clean_ofList rfl)
  | clear target => exact h.clear target
  | tape | pointer | peek | info | next | code | help | quit =>
    exact h.tells (dispatch_of_looks rfl).1

/-- A command line that is clean itself brings in nothing that is not. -/
theorem begin (h : s.SaysClean) {line : String} (clean : Clean line) :
    (s.begin line).1.SaysClean := by
  have calm : s.calm.SaysClean := h.replaced _
  unfold Shell.begin
  cases parsed : Command.parse line with
  | error fault => exact calm.say _ (Command.clean_message_of_parse clean parsed)
  | ok asked =>
    cases asked with
    | none => exact calm
    | some command => exact calm.dispatch command

theorem execute (h : s.SaysClean) {line : String} (clean : Clean line) (fuel : Nat) :
    (s.execute fuel line).1.SaysClean := by
  have begun := h.begin clean
  rcases begins : s.begin line with ⟨after, flow | _⟩
  · rw [begins] at begun
    rw [execute_of_done begins]
    exact begun
  · rw [begins] at begun
    rw [execute_of_running begins]
    exact begun.proceed fuel

theorem happenAll (h : s.SaysClean) {events : List Event}
    (clean : ∀ fuel text, .line fuel text ∈ events → Clean text) :
    (s.happenAll events).SaysClean := by
  induction events generalizing s with
  | nil => exact h
  | cons event later ih =>
    have others : ∀ fuel text, .line fuel text ∈ later → Clean text := fun fuel text mem =>
      clean fuel text (List.mem_cons_of_mem _ mem)
    cases event with
    | line fuel text => exact ih (h.execute (clean fuel text List.mem_cons_self) fuel) others
    | proceed fuel => exact ih (h.proceed fuel) others
    | interrupt | input => exact ih (h.replaced _) others

end SaysClean

/-! ### Colors taken away -/

theorem withoutControls_span {span : Span} (palette : Palette)
    (clean : ∀ text, span.text? = some text → Clean text) (silent : escapeByte ∉ span.written)
    (rest : List UInt8) :
    Color.withoutControls (span.bytes (some palette) ++ rest) =
      span.bytes none ++ Color.withoutControls rest := by
  cases span with
  | plain text =>
    exact Color.withoutControls_append ((clean_iff_encode text).mp (clean text rfl)) rest
  | toned tone text => exact Color.withoutControls_paint _ (clean text rfl) rest
  | output bytes =>
    have free : escapeByte ∉ bytes.toList := fun mem => silent (Array.mem_toList_iff.mp mem)
    exact Color.withoutControls_append free rest

theorem withoutControls_spans {spans : List Span} (palette : Palette)
    (clean : ∀ span ∈ spans, ∀ text, span.text? = some text → Clean text)
    (silent : ∀ span ∈ spans, escapeByte ∉ span.written) :
    Color.withoutControls (spans.flatMap (Span.bytes (some palette))) =
      spans.flatMap (Span.bytes none) := by
  induction spans with
  | nil => simp [Color.withoutControls]
  | cons span spans ih =>
    obtain ⟨here, later⟩ := List.forall_mem_cons.mp clean
    obtain ⟨silentHere, silentLater⟩ := List.forall_mem_cons.mp silent
    rw [List.flatMap_cons, List.flatMap_cons, withoutControls_span palette here silentHere,
      ih later silentLater]

theorem mem_written_of_mem {s : Shell} {span : Span} {b : UInt8}
    (mem : span ∈ s.transcript.toList) (here : b ∈ span.written) : b ∈ s.written := by
  rw [written, List.mem_toArray, Transcript.programOutput, List.mem_flatMap]
  refine ⟨span, mem, ?_⟩
  cases span with
  | plain | toned => simp [Span.written] at here
  | output bytes => exact Array.mem_toList_iff.mpr here

end Shell

/-- Settings and colors make no difference to what a session comes to. And what it shows in colors
is, without the control sequences, what it shows without colors, if the window is the same and
neither the program nor a command line brings in an escape byte. -/
theorem presentation_is_outward (p : Program) (input : List UInt8) (schedule : Schedule)
    (events : List Shell.Event) (v v' : Presentation) :
    let s := v.opened p input schedule
    let s' := v'.opened p input schedule
    s.history events = s'.history events ∧
      (v.settings.window = v'.settings.window → v.colored = true → v'.colored = false →
        (∀ fuel text, .line fuel text ∈ events → escapeByte ∉ Text.Utf8.encode text) →
        escapeByte ∉ (s.happenAll events).written →
        Color.withoutControls (v.stream (s.happenAll events)) =
          v'.stream (s'.happenAll events)) := by
  intro s s'
  have session : Shell.SameSession s s' := ⟨rfl, rfl⟩
  refine ⟨session.history_eq events, ?_⟩
  intro window colored uncolored lines silent
  have same : s = s' := by
    simp only [s, s', Presentation.opened, Session.start, window]
  have fresh : s.SaysClean := by
    intro span mem
    cases mem
  have clean := fresh.happenAll fun fuel text mem =>
    (clean_iff_encode text).mpr (lines fuel text mem)
  rw [← same, Presentation.stream, Presentation.stream, Presentation.palette,
    Presentation.palette, colored, uncolored]
  exact Shell.withoutControls_spans _ clean fun span mem here =>
    silent (Shell.mem_written_of_mem mem here)

/-- A run of `+.` and an unknown command are shown in two colors. Without the control sequences that
is what is shown without colors. -/
theorem colored_run_and_fault_are_outward :
    let p : Program := ⟨#[⟨.increment, 1⟩, ⟨.output, 1⟩], some #[some 0], 1, #[]⟩
    let colored : Presentation := ⟨{}, true⟩
    let plain : Presentation := ⟨{}, false⟩
    let events : List Shell.Event := [.line 3 "r", .line 0 "x"]
    let s := (colored.opened p [] {}).happenAll events
    let s' := (plain.opened p [] {}).happenAll events
    Program.ofSource true "+." = .ok p ∧ s.written = #[1] ∧
      (colored.opened p [] {}).history events = (plain.opened p [] {}).history events ∧
      Color.withoutControls (colored.stream s) = plain.stream s' ∧
      colored.stream s ≠ plain.stream s' := by
  intro p colored plain events s s'
  have accepted : Program.ofSource true "+." = .ok p := by cbv
  have written : s.written = #[1] := by decide +kernel
  have lines : ∀ fuel text, .line fuel text ∈ events → escapeByte ∉ Text.Utf8.encode text := by
    intro fuel text mem
    rcases List.mem_pair.mp mem with same | same
    · obtain ⟨rfl, rfl⟩ := Shell.Event.line.inj same
      decide
    · obtain ⟨rfl, rfl⟩ := Shell.Event.line.inj same
      decide
  obtain ⟨history, streams⟩ := presentation_is_outward p [] {} events colored plain
  have silent : escapeByte ∉ s.written := by
    simp [written, escapeByte]
  have differ : colored.stream s ≠ plain.stream s' := by decide +kernel
  exact ⟨accepted, written, history, streams rfl rfl rfl lines silent, differ⟩

end Brainfuck
