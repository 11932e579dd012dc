import Brainfuck.Command
import Brainfuck.Proofs.Text.Numerals
import Brainfuck.Proofs.Text.Words
import Mathlib.Data.List.Nodup
import Mathlib.Data.List.Pairwise

/-!
# The grammar of command lines

Which rows of words are commands, and which commands they are, written down production by
production. A line is read by the productions and by nothing else: its words tell everything, and a
row that is no production is blamed on its first word. What is said of it then is written down as
well: `HasForm` has the form of every command that other words can fail to fit, and `Complaint` the
text.
-/

namespace Brainfuck.Command

open Text.Numeral (IsCount IsInteger)

/-- The letters for what can be shown and cleared. -/
inductive NamesTarget : String → Target → Prop
  | stopPoint : NamesTarget "s" .stopPoint
  | breakpoints : NamesTarget "b" .breakpoints
  | watches : NamesTarget "w" .watches

/-- The rows of words that ask for something. -/
inductive Production : List String → Command → Prop
  | run {w : String} : w ∈ ["run", "r"] → Production [w] .run
  | resume {w : String} : w ∈ ["continue", "c"] → Production [w] .resume
  | untilExit {w : String} : w ∈ ["until", "u"] → Production [w] .untilExit
  | tape {w : String} : w ∈ ["tape", "t"] → Production [w] .tape
  | pointer : Production ["ptr"] .pointer
  | next {w : String} : w ∈ ["next", "n"] → Production [w] .next
  | reset : Production ["reset"] .reset
  | code : Production ["code"] .code
  | help {w : String} {ignored : List String} : w ∈ ["help", "h"] → Production (w :: ignored) .help
  | quit {w : String} {ignored : List String} : w ∈ ["quit", "q"] → Production (w :: ignored) .quit
  | step {w : String} : w ∈ ["step", "s"] → Production [w] (.step 1)
  | steps {w number : String} {times : Nat} : w ∈ ["step", "s"] → IsCount number times →
      Production [w, number] (.step times)
  | detailed {w : String} : w ∈ ["detailed", "d"] → Production [w] (.detailed none)
  | detailedSteps {w number : String} {times : Nat} : w ∈ ["detailed", "d"] →
      IsCount number times → Production [w, number] (.detailed (some times))
  | stop : Production ["stop"] (.stop none)
  | stopAt {number : String} {index : Nat} : IsCount number index →
      Production ["stop", number] (.stop (some index))
  | breakAt {w number : String} {line : Nat} : w ∈ ["break", "b"] → IsCount number line →
      Production [w, number] (.breakAt line)
  | watch {w number : String} {address : Int} : w ∈ ["watch", "w"] → IsInteger number address →
      Production [w, number] (.watch address)
  | deleteStop {w : String} : w ∈ ["delete", "del"] → Production [w, "s"] .deleteStop
  /-- The stop point has no number, so that any word may stand for it. -/
  | deleteStopNumbered {w ignored : String} : w ∈ ["delete", "del"] →
      Production [w, "s", ignored] .deleteStop
  | deleteBreakpoint {w number : String} {ordinal : Nat} : w ∈ ["delete", "del"] →
      IsCount number ordinal → Production [w, "b", number] (.deleteBreakpoint ordinal)
  | deleteWatch {w number : String} {ordinal : Nat} : w ∈ ["delete", "del"] →
      IsCount number ordinal → Production [w, "w", number] (.deleteWatch ordinal)
  | peek {w : String} : w ∈ ["peek", "p"] → Production [w] (.peek 0 1)
  | peekAt {w place : String} {offset : Int} : w ∈ ["peek", "p"] → IsInteger place offset →
      Production [w, place] (.peek offset 1)
  | peekRow {w place number : String} {offset : Int} {length : Nat} : w ∈ ["peek", "p"] →
      IsInteger place offset → IsCount number length → length ≤ 4096 →
      Production [w, place, number] (.peek offset length)
  | info {w : String} : w ∈ ["info", "i"] → Production [w] (.info none)
  | infoOn {w letter : String} {target : Target} : w ∈ ["info", "i"] → NamesTarget letter target →
      Production [w, letter] (.info (some target))
  | clear : Production ["clear"] (.clear none)
  | clearOne {letter : String} {target : Target} : NamesTarget letter target →
      Production ["clear", letter] (.clear (some target))

/-- The form of the commands that begin with a word. There is none for help and for the end of the
conversation, whose other words do not count. -/
inductive HasForm : String → String → Prop
  | run {w : String} : w ∈ ["run", "r"] → HasForm w "run"
  | resume {w : String} : w ∈ ["continue", "c"] → HasForm w "continue"
  | untilExit {w : String} : w ∈ ["until", "u"] → HasForm w "until"
  | tape {w : String} : w ∈ ["tape", "t"] → HasForm w "tape"
  | pointer : HasForm "ptr" "ptr"
  | next {w : String} : w ∈ ["next", "n"] → HasForm w "next"
  | reset : HasForm "reset" "reset"
  | code : HasForm "code" "code"
  | step {w : String} : w ∈ ["step", "s"] → HasForm w "s[tep] [times]"
  | detailed {w : String} : w ∈ ["detailed", "d"] → HasForm w "d[etailed] [times]"
  | stop : HasForm "stop" "stop [index]"
  | breakAt {w : String} : w ∈ ["break", "b"] → HasForm w "b[reak] <line>"
  | watch {w : String} : w ∈ ["watch", "w"] → HasForm w "w[atch] <address>"
  | delete {w : String} : w ∈ ["delete", "del"] → HasForm w "del[ete] s|b|w <num>"
  | peek {w : String} : w ∈ ["peek", "p"] → HasForm w "p[eek] [offset [length]]"
  | info {w : String} : w ∈ ["info", "i"] → HasForm w "i[nfo] [s|b|w]"
  | clear : HasForm "clear" "clear [s|b|w]"

/-- What is said of a row of words that asks for nothing there is. -/
inductive Complaint : List String → String → Prop
  | unknown {word : String} {others : List String} : (∀ verb : Verb, word ∉ verb.names) →
      Complaint (word :: others) ("Unknown command '" ++ word ++ "'. Type h for help")
  | usage {word form : String} {others : List String} : HasForm word form →
      (∀ command, ¬ Production (word :: others) command) →
      Complaint (word :: others) ("Usage: " ++ form)

/-- What a row of words is read as. -/
structure ReadsAs (words : List String) (result : Except Fault (Option Command)) : Prop where
  blank : result = .ok none ↔ words = []
  command : ∀ command, result = .ok (some command) ↔ Production words command
  unknown : ∀ word, result = .error (.unknown word) ↔
    words.head? = some word ∧ ∀ verb : Verb, word ∉ verb.names
  usage : ∀ verb, result = .error (.usage verb) ↔
    (∃ word ∈ words.head?, word ∈ verb.names) ∧ ∀ command, ¬ Production words command
  /-- The command that is blamed has the form that is written down for its word. -/
  form : ∀ form, (∃ verb, result = .error (.usage verb) ∧ verb.usage = form) ↔
    (∃ word ∈ words.head?, HasForm word form) ∧ ∀ command, ¬ Production words command
  message : ∀ text, (∃ fault, result = .error fault ∧ fault.message = text) ↔ Complaint words text

variable {word letter line form : String} {verb : Verb} {args words : List String}
variable {command result : Command} {target : Target}

/-! ### Words -/

theorem Verb.mem_all (verb : Verb) : verb ∈ Verb.all := by
  cases verb <;> decide

/-- Verbs that share a word are the same. -/
theorem Verb.eq_of_mem_names {other : Verb} (named : word ∈ verb.names)
    (named' : word ∈ other.names) : verb = other := by
  by_contra apart
  have symm : Std.Symm (Function.onFun List.Disjoint Verb.names) :=
    ⟨fun a b disjoint word first second => disjoint second first⟩
  obtain ⟨-, disjoint⟩ := List.nodup_flatMap.mp Verb.names_nodup
  exact disjoint.forall verb.mem_all other.mem_all apart named named'

/-- A word stands for the one verb that has it among its names. -/
theorem ofWord?_eq_some_iff : Verb.ofWord? word = some verb ↔ word ∈ verb.names := by
  constructor
  · intro found
    simpa using List.find?_some found
  · intro named
    obtain ⟨other, found⟩ : ∃ other, Verb.ofWord? word = some other := by
      rw [← Option.isSome_iff_exists, Verb.ofWord?, List.find?_isSome]
      exact ⟨verb, verb.mem_all, by simpa using named⟩
    have named' : word ∈ other.names := by simpa using List.find?_some found
    rw [found, Verb.eq_of_mem_names named' named]

theorem ofWord?_eq_none_iff : Verb.ofWord? word = none ↔ ∀ verb : Verb, word ∉ verb.names := by
  constructor
  · intro none verb named
    rw [ofWord?_eq_some_iff.mpr named] at none
    cases none
  · intro nobody
    cases found : Verb.ofWord? word with
    | none => rfl
    | some verb => exact absurd (ofWord?_eq_some_iff.mp found) (nobody verb)

theorem target_ofWord?_eq_some_iff :
    Target.ofWord? letter = some target ↔ NamesTarget letter target := by
  constructor
  · intro named
    unfold Target.ofWord? at named
    split at named <;> cases named
    · exact .stopPoint
    · exact .breakpoints
    · exact .watches
  · rintro ⟨⟩ <;> rfl

/-! ### The words behind a verb -/

theorem alone_eq_some_iff : alone command args = some result ↔ args = [] ∧ command = result := by
  cases args <;> simp [alone]

theorem optional_eq_some_iff {α : Type} {read : String → Option α} {make : Option α → Command} :
    optional read make args = some result ↔
      args = [] ∧ make none = result ∨
        ∃ word value, args = [word] ∧ read word = some value ∧ make (some value) = result := by
  rcases args with _ | ⟨word, _ | ⟨more, args⟩⟩ <;> simp [optional, Option.map_eq_some_iff]

theorem required_eq_some_iff {α : Type} {read : String → Option α} {make : α → Command} :
    required read make args = some result ↔
      ∃ word value, args = [word] ∧ read word = some value ∧ make value = result := by
  rcases args with _ | ⟨word, _ | ⟨more, args⟩⟩ <;> simp [required, Option.map_eq_some_iff]

/-! ### What is read is a production -/

theorem production_of_deletion (named : word ∈ ["delete", "del"])
    (fits : deletion args = some command) : Production (word :: args) command := by
  unfold deletion at fits
  split at fits
  · cases fits
    exact .deleteStop named
  · cases fits
    exact .deleteStopNumbered named
  · obtain ⟨ordinal, read, rfl⟩ := Option.map_eq_some_iff.mp fits
    exact .deleteBreakpoint named (Text.Numeral.count?_eq_some_iff.mp read)
  · obtain ⟨ordinal, read, rfl⟩ := Option.map_eq_some_iff.mp fits
    exact .deleteWatch named (Text.Numeral.count?_eq_some_iff.mp read)
  · cases fits

theorem production_of_peeking (named : word ∈ ["peek", "p"])
    (fits : peeking args = some command) : Production (word :: args) command := by
  unfold peeking at fits
  split at fits
  · cases fits
    exact .peek named
  · obtain ⟨offset, read, rfl⟩ := Option.map_eq_some_iff.mp fits
    exact .peekAt named (Text.Numeral.integer?_eq_some_iff.mp read)
  · split at fits
    · rename_i offset length place number
      split at fits
      · cases fits
        exact .peekRow named (Text.Numeral.integer?_eq_some_iff.mp place)
          (Text.Numeral.count?_eq_some_iff.mp number) ‹_›
      · cases fits
    · cases fits
  · cases fits

/-- A verb with words that fit it is a production, verb by verb. -/
theorem production_of_ofWords? (named : word ∈ verb.names)
    (fits : ofWords? verb args = some command) : Production (word :: args) command := by
  cases verb with
  | run =>
    obtain ⟨rfl, rfl⟩ := alone_eq_some_iff.mp fits
    exact .run named
  | resume =>
    obtain ⟨rfl, rfl⟩ := alone_eq_some_iff.mp fits
    exact .resume named
  | untilExit =>
    obtain ⟨rfl, rfl⟩ := alone_eq_some_iff.mp fits
    exact .untilExit named
  | tape =>
    obtain ⟨rfl, rfl⟩ := alone_eq_some_iff.mp fits
    exact .tape named
  | pointer =>
    obtain ⟨rfl, rfl⟩ := alone_eq_some_iff.mp fits
    obtain rfl := List.mem_singleton.mp named
    exact .pointer
  | next =>
    obtain ⟨rfl, rfl⟩ := alone_eq_some_iff.mp fits
    exact .next named
  | reset =>
    obtain ⟨rfl, rfl⟩ := alone_eq_some_iff.mp fits
    obtain rfl := List.mem_singleton.mp named
    exact .reset
  | code =>
    obtain ⟨rfl, rfl⟩ := alone_eq_some_iff.mp fits
    obtain rfl := List.mem_singleton.mp named
    exact .code
  | help =>
    cases fits
    exact .help named
  | quit =>
    cases fits
    exact .quit named
  | step =>
    rw [ofWords?] at fits
    rcases optional_eq_some_iff.mp fits with ⟨rfl, rfl⟩ | ⟨number, times, rfl, read, rfl⟩
    · exact .step named
    · exact .steps named (Text.Numeral.count?_eq_some_iff.mp read)
  | detailed =>
    rcases optional_eq_some_iff.mp fits with ⟨rfl, rfl⟩ | ⟨number, times, rfl, read, rfl⟩
    · exact .detailed named
    · exact .detailedSteps named (Text.Numeral.count?_eq_some_iff.mp read)
  | stop =>
    obtain rfl := List.mem_singleton.mp named
    rcases optional_eq_some_iff.mp fits with ⟨rfl, rfl⟩ | ⟨number, index, rfl, read, rfl⟩
    · exact .stop
    · exact .stopAt (Text.Numeral.count?_eq_some_iff.mp read)
  | breakAt =>
    obtain ⟨number, line, rfl, read, rfl⟩ := required_eq_some_iff.mp fits
    exact .breakAt named (Text.Numeral.count?_eq_some_iff.mp read)
  | watch =>
    obtain ⟨number, address, rfl, read, rfl⟩ := required_eq_some_iff.mp fits
    exact .watch named (Text.Numeral.integer?_eq_some_iff.mp read)
  | delete => exact production_of_deletion named fits
  | peek => exact production_of_peeking named fits
  | info =>
    rcases optional_eq_some_iff.mp fits with ⟨rfl, rfl⟩ | ⟨letter, target, rfl, read, rfl⟩
    · exact .info named
    · exact .infoOn named (target_ofWord?_eq_some_iff.mp read)
  | clear =>
    obtain rfl := List.mem_singleton.mp named
    rcases optional_eq_some_iff.mp fits with ⟨rfl, rfl⟩ | ⟨letter, target, rfl, read, rfl⟩
    · exact .clear
    · exact .clearOne (target_ofWord?_eq_some_iff.mp read)

/-! ### Productions are read -/

/-- A production begins with a word for a verb, and the others fit the verb. -/
theorem Production.exists_verb (h : Production words command) :
    ∃ (word : String) (args : List String) (verb : Verb), words = word :: args ∧
      word ∈ verb.names ∧ ofWords? verb args = some command := by
  cases h with
  | run named => exact ⟨_, _, .run, rfl, named, rfl⟩
  | resume named => exact ⟨_, _, .resume, rfl, named, rfl⟩
  | untilExit named => exact ⟨_, _, .untilExit, rfl, named, rfl⟩
  | tape named => exact ⟨_, _, .tape, rfl, named, rfl⟩
  | pointer => exact ⟨_, _, .pointer, rfl, List.mem_singleton_self _, rfl⟩
  | next named => exact ⟨_, _, .next, rfl, named, rfl⟩
  | reset => exact ⟨_, _, .reset, rfl, List.mem_singleton_self _, rfl⟩
  | code => exact ⟨_, _, .code, rfl, List.mem_singleton_self _, rfl⟩
  | help named => exact ⟨_, _, .help, rfl, named, rfl⟩
  | quit named => exact ⟨_, _, .quit, rfl, named, rfl⟩
  | step named => exact ⟨_, _, .step, rfl, named, rfl⟩
  | steps named number =>
    have read := Text.Numeral.count?_eq_some_iff.mpr number
    exact ⟨_, _, .step, rfl, named, by simp [ofWords?, optional, read]⟩
  | detailed named => exact ⟨_, _, .detailed, rfl, named, rfl⟩
  | detailedSteps named number =>
    have read := Text.Numeral.count?_eq_some_iff.mpr number
    exact ⟨_, _, .detailed, rfl, named, by simp [ofWords?, optional, read]⟩
  | stop => exact ⟨_, _, .stop, rfl, List.mem_singleton_self _, rfl⟩
  | stopAt number =>
    have read := Text.Numeral.count?_eq_some_iff.mpr number
    exact ⟨_, _, .stop, rfl, List.mem_singleton_self _, by simp [ofWords?, optional, read]⟩
  | breakAt named number =>
    have read := Text.Numeral.count?_eq_some_iff.mpr number
    exact ⟨_, _, .breakAt, rfl, named, by simp [ofWords?, required, read]⟩
  | watch named number =>
    have read := Text.Numeral.integer?_eq_some_iff.mpr number
    exact ⟨_, _, .watch, rfl, named, by simp [ofWords?, required, read]⟩
  | deleteStop named => exact ⟨_, _, .delete, rfl, named, rfl⟩
  | deleteStopNumbered named => exact ⟨_, _, .delete, rfl, named, rfl⟩
  | deleteBreakpoint named number | deleteWatch named number =>
    have read := Text.Numeral.count?_eq_some_iff.mpr number
    exact ⟨_, _, .delete, rfl, named, by simp [ofWords?, deletion, read]⟩
  | peek named => exact ⟨_, _, .peek, rfl, named, rfl⟩
  | peekAt named place =>
    have read := Text.Numeral.integer?_eq_some_iff.mpr place
    exact ⟨_, _, .peek, rfl, named, by simp [ofWords?, peeking, read]⟩
  | peekRow named place number short =>
    have first := Text.Numeral.integer?_eq_some_iff.mpr place
    have second := Text.Numeral.count?_eq_some_iff.mpr number
    refine ⟨_, _, .peek, rfl, named, ?_⟩
    simp only [ofWords?, peeking, first, second]
    exact if_pos short
  | info named => exact ⟨_, _, .info, rfl, named, rfl⟩
  | infoOn named letter =>
    have read := target_ofWord?_eq_some_iff.mpr letter
    exact ⟨_, _, .info, rfl, named, by simp [ofWords?, optional, read]⟩
  | clear => exact ⟨_, _, .clear, rfl, List.mem_singleton_self _, rfl⟩
  | clearOne letter =>
    have read := target_ofWord?_eq_some_iff.mpr letter
    exact ⟨_, _, .clear, rfl, List.mem_singleton_self _, by simp [ofWords?, optional, read]⟩

theorem production_cons_iff :
    Production (word :: args) command ↔
      ∃ verb : Verb, word ∈ verb.names ∧ ofWords? verb args = some command := by
  constructor
  · intro h
    obtain ⟨_, _, verb, same, named, fits⟩ := h.exists_verb
    obtain ⟨rfl, rfl⟩ := List.cons_eq_cons.mp same
    exact ⟨verb, named, fits⟩
  · rintro ⟨verb, named, fits⟩
    exact production_of_ofWords? named fits

theorem not_production_nil (command : Command) : ¬ Production [] command := by
  rintro ⟨⟩

/-! ### Forms -/

/-- A verb whose words can fail to fit has the form that is written down for its names. -/
theorem hasForm_usage (named : word ∈ verb.names)
    (unfit : ∀ command, ¬ Production (word :: args) command) : HasForm word verb.usage := by
  cases verb with
  | run => exact .run named
  | resume => exact .resume named
  | untilExit => exact .untilExit named
  | tape => exact .tape named
  | pointer =>
    obtain rfl := List.mem_singleton.mp named
    exact .pointer
  | next => exact .next named
  | reset =>
    obtain rfl := List.mem_singleton.mp named
    exact .reset
  | code =>
    obtain rfl := List.mem_singleton.mp named
    exact .code
  | step => exact .step named
  | detailed => exact .detailed named
  | stop =>
    obtain rfl := List.mem_singleton.mp named
    exact .stop
  | breakAt => exact .breakAt named
  | watch => exact .watch named
  | delete => exact .delete named
  | peek => exact .peek named
  | info => exact .info named
  | clear =>
    obtain rfl := List.mem_singleton.mp named
    exact .clear
  -- Every word fits these two.
  | help => exact absurd (.help named) (unfit _)
  | quit => exact absurd (.quit named) (unfit _)

/-- A form that is written down for a word is that of a verb with this name. -/
theorem HasForm.exists_verb (h : HasForm word form) :
    ∃ verb : Verb, word ∈ verb.names ∧ verb.usage = form := by
  cases h with
  | run named => exact ⟨.run, named, rfl⟩
  | resume named => exact ⟨.resume, named, rfl⟩
  | untilExit named => exact ⟨.untilExit, named, rfl⟩
  | tape named => exact ⟨.tape, named, rfl⟩
  | pointer => exact ⟨.pointer, List.mem_singleton_self _, rfl⟩
  | next named => exact ⟨.next, named, rfl⟩
  | reset => exact ⟨.reset, List.mem_singleton_self _, rfl⟩
  | code => exact ⟨.code, List.mem_singleton_self _, rfl⟩
  | step named => exact ⟨.step, named, rfl⟩
  | detailed named => exact ⟨.detailed, named, rfl⟩
  | stop => exact ⟨.stop, List.mem_singleton_self _, rfl⟩
  | breakAt named => exact ⟨.breakAt, named, rfl⟩
  | watch named => exact ⟨.watch, named, rfl⟩
  | delete named => exact ⟨.delete, named, rfl⟩
  | peek named => exact ⟨.peek, named, rfl⟩
  | info named => exact ⟨.info, named, rfl⟩
  | clear => exact ⟨.clear, List.mem_singleton_self _, rfl⟩

/-- Which verb is blamed tells which form is shown. -/
theorem form_iff {read : Except Fault (Option Command)}
    (usage : ∀ verb, read = .error (.usage verb) ↔
      (∃ word ∈ words.head?, word ∈ verb.names) ∧ ∀ command, ¬ Production words command)
    (form : String) :
    (∃ verb, read = .error (.usage verb) ∧ verb.usage = form) ↔
      (∃ word ∈ words.head?, HasForm word form) ∧ ∀ command, ¬ Production words command := by
  constructor
  · intro shown
    obtain ⟨verb, blamed, rfl⟩ := shown
    obtain ⟨⟨word, first, named⟩, unfit⟩ := (usage verb).mp blamed
    obtain ⟨args, rfl⟩ := List.head?_eq_some_iff.mp first
    exact ⟨⟨word, first, hasForm_usage named unfit⟩, unfit⟩
  · intro misfit
    obtain ⟨⟨word, first, written⟩, unfit⟩ := misfit
    obtain ⟨verb, named, same⟩ := written.exists_verb
    exact ⟨verb, (usage verb).mpr ⟨⟨word, first, named⟩, unfit⟩, same⟩

/-- Either fault is put into the words of its complaint, and there is no other. -/
theorem message_iff {read : Except Fault (Option Command)}
    (unknown : ∀ word, read = .error (.unknown word) ↔
      words.head? = some word ∧ ∀ verb : Verb, word ∉ verb.names)
    (form : ∀ form, (∃ verb, read = .error (.usage verb) ∧ verb.usage = form) ↔
      (∃ word ∈ words.head?, HasForm word form) ∧ ∀ command, ¬ Production words command)
    (text : String) :
    (∃ fault, read = .error fault ∧ fault.message = text) ↔ Complaint words text := by
  constructor
  · intro told
    obtain ⟨fault, blamed, rfl⟩ := told
    cases fault with
    | unknown word =>
      obtain ⟨first, nobody⟩ := (unknown word).mp blamed
      obtain ⟨args, rfl⟩ := List.head?_eq_some_iff.mp first
      exact .unknown nobody
    | usage verb =>
      obtain ⟨⟨word, first, written⟩, unfit⟩ := (form verb.usage).mp ⟨verb, blamed, rfl⟩
      obtain ⟨args, rfl⟩ := List.head?_eq_some_iff.mp first
      exact .usage written unfit
  · intro complaint
    cases complaint with
    | @unknown word args nobody => exact ⟨.unknown word, (unknown word).mpr ⟨rfl, nobody⟩, rfl⟩
    | @usage word shown args written unfit =>
      obtain ⟨verb, blamed, rfl⟩ := (form shown).mpr ⟨⟨word, rfl, written⟩, unfit⟩
      exact ⟨.usage verb, blamed, rfl⟩

/-- The texts are settled once it is settled what is read. -/
theorem readsAs_of_faults {read : Except Fault (Option Command)}
    (blank : read = .ok none ↔ words = [])
    (command : ∀ command, read = .ok (some command) ↔ Production words command)
    (unknown : ∀ word, read = .error (.unknown word) ↔
      words.head? = some word ∧ ∀ verb : Verb, word ∉ verb.names)
    (usage : ∀ verb, read = .error (.usage verb) ↔
      (∃ word ∈ words.head?, word ∈ verb.names) ∧ ∀ command, ¬ Production words command) :
    ReadsAs words read :=
  ⟨blank, command, unknown, usage, form_iff usage, message_iff unknown (form_iff usage)⟩

/-! ### Lines -/

theorem parse_of_blank (found : Text.words line = []) : parse line = .ok none := by
  rw [parse, found]

theorem parse_of_nobody (found : Text.words line = word :: args)
    (nobody : ∀ verb : Verb, word ∉ verb.names) : parse line = .error (.unknown word) := by
  simp only [parse, found, ofWord?_eq_none_iff.mpr nobody]

theorem parse_of_named (found : Text.words line = word :: args) (named : word ∈ verb.names) :
    parse line = ((ofWords? verb args).map fun command => Except.ok (some command)).getD
      (.error (.usage verb)) := by
  simp only [parse, found, ofWord?_eq_some_iff.mpr named]
  cases ofWords? verb args <;> rfl

/-- Every row of words is read by the productions. -/
theorem readsAs_words (line : String) : ReadsAs (Text.words line) (parse line) := by
  rcases found : Text.words line with _ | ⟨word, args⟩
  · rw [parse_of_blank found]
    exact readsAs_of_faults (by simp) (by simp [not_production_nil]) (by simp) (by simp)
  · by_cases somebody : ∃ verb : Verb, word ∈ verb.names
    · obtain ⟨verb, named⟩ := somebody
      have only : ∀ other : Verb, word ∈ other.names ↔ verb = other := by
        intro other
        exact ⟨Verb.eq_of_mem_names named, fun same => same ▸ named⟩
      have produced : ∀ command,
          Production (word :: args) command ↔ ofWords? verb args = some command := by
        intro command
        simp [production_cons_iff, only]
      rw [parse_of_named found named]
      cases fits : ofWords? verb args <;> rw [fits] at produced
      · exact readsAs_of_faults (by simp) (by simp [produced]) (by simp [only])
          (by simp [produced, only])
      · exact readsAs_of_faults (by simp) (by simp [produced]) (by simp [only])
          (by simp [produced])
    · have nobody : ∀ verb : Verb, word ∉ verb.names := not_exists.mp somebody
      have unfit : ∀ command, ¬ Production (word :: args) command := by
        intro command h
        obtain ⟨verb, named, -⟩ := production_cons_iff.mp h
        exact nobody verb named
      have single : ∀ other, word = other ↔ word = other ∧ ∀ verb : Verb, other ∉ verb.names := by
        intro other
        exact ⟨fun same => ⟨same, same ▸ nobody⟩, And.left⟩
      rw [parse_of_nobody found nobody]
      exact readsAs_of_faults (by simp) (by simp [unfit]) (by simpa using single)
        (by simp [nobody])

/-- A command line is read by its words: a row of words that is a production asks for that command
and for no other, one that begins with the name of no command is unknown, any other one is blamed
with the form of the command it begins with, and a blank line asks for nothing. What is said of a
line that is blamed is the text that is written down for its words. -/
theorem command_lines_follow_grammar (line : String) :
    ∃ words, (∀ found, Text.Worded line.toList found ↔ found = words) ∧
      ReadsAs words (parse line) ∧
      ∀ other : String, Text.Worded other.toList words → parse other = parse line := by
  refine ⟨Text.words line, ?_, readsAs_words line, ?_⟩
  · intro found
    exact Text.worded_iff.trans eq_comm
  · intro other worded
    have same : Text.words other = Text.words line := Text.worded_iff.mp worded
    rw [parse, parse, same]

end Brainfuck.Command
