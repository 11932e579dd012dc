import Brainfuck.Proofs.Shell.Slices
import Brainfuck.Session

/-!
# Conversations

What a session on one stream is meant to be: command lines executed one by one, each of them the
first line of what those before it, and the programs that they ran, have left of the stream. It says
nothing of turns or of slices.
-/

namespace Brainfuck

/-! ### Lines -/

/-- The first line of a stream, with the newline at its end, and what stands behind it. Only the
last line may lack a newline. -/
structure FirstLine (stream line rest : List UInt8) : Prop where
  whole : line ++ rest = stream
  nonempty : line ≠ []
  single : Text.newline ∉ line.dropLast
  ended : line.getLast? = some Text.newline ∨ rest = []

variable {stream line rest : List UInt8}

theorem FirstLine.ne_nil (first : FirstLine stream line rest) : stream ≠ [] := by
  rw [← first.whole]
  simp [first.nonempty]

theorem splitLine_of_newline {start : List UInt8} (unended : Text.newline ∉ start) :
    Text.splitLine (start ++ Text.newline :: rest) = (start ++ [Text.newline], rest) := by
  have others : ∀ b ∈ start, (b != Text.newline) = true := fun b mem =>
    bne_iff_ne.mpr fun same => unended (same ▸ mem)
  rw [Text.splitLine, List.dropWhile_append_of_pos others, List.takeWhile_append_of_pos others]
  simp

theorem splitLine_of_unended (unended : Text.newline ∉ stream) :
    Text.splitLine stream = (stream, []) := by
  have others : ∀ b ∈ stream, (b != Text.newline) = true := fun b mem =>
    bne_iff_ne.mpr fun same => unended (same ▸ mem)
  rw [Text.splitLine, List.dropWhile_eq_nil_iff.mpr others]

/-- A stream has one first line. -/
theorem FirstLine.splitLine_eq (first : FirstLine stream line rest) :
    Text.splitLine stream = (line, rest) := by
  obtain ⟨rfl, nonempty, single, ended⟩ := first
  obtain ⟨start, last, rfl⟩ := (List.eq_nil_or_concat' line).resolve_left nonempty
  have unended : Text.newline ∉ start := by simpa using single
  by_cases final : last = Text.newline
  · rw [final, List.append_assoc]
    exact splitLine_of_newline unended
  · have nothing : rest = [] := by simpa [final] using ended
    rw [nothing, List.append_nil]
    exact splitLine_of_unended (by simpa using ⟨unended, Ne.symm final⟩)

theorem firstLine_splitLine (some : stream ≠ []) :
    FirstLine stream (Text.splitLine stream).1 (Text.splitLine stream).2 := by
  by_cases mem : Text.newline ∈ stream
  · obtain ⟨start, rest, rfl, unended⟩ := List.eq_append_cons_of_mem mem
    rw [splitLine_of_newline unended]
    exact ⟨by simp, by simp, by simpa using unended, .inl (by simp)⟩
  · rw [splitLine_of_unended mem]
    exact ⟨by simp, some, fun last => mem (List.dropLast_subset _ last), .inr rfl⟩

/-! ### Executed one by one -/

namespace Shell

/-- What is ahead of a shell: its next command lines, and the input of its program. -/
def ahead (s : Shell) : List UInt8 :=
  s.debugger.machine.input

/-- The shell with another stream ahead of it. -/
def facing (s : Shell) (stream : List UInt8) : Shell :=
  { s with debugger := s.debugger.withInput stream }

/-- How often programs have executed a `,` in the session of a shell. -/
def reads (s : Shell) : Nat :=
  s.debugger.signal.reads

end Shell

/-- A command line that has been taken from a stream, and the bytes behind it that its program has
read. -/
structure Exchange where
  line : List UInt8
  read : List UInt8

def Exchange.bytes (e : Exchange) : List UInt8 :=
  e.line ++ e.read

/-- A command line with what has been read since: one byte of what stood behind the line, or none if
nothing was left, for each `,` that has been executed. -/
def exchange (line rest : List UInt8) (before after : Shell) : Exchange where
  line
  read := rest.take (after.reads - before.reads)

/-- A session that executes the lines of its stream one by one, up to an ending or up to where it is
looked at. -/
inductive Conversation : Shell → List Exchange → Option Ending → Shell → Prop
  /-- It is looked at between two lines. -/
  | between (s : Shell) : Conversation s [] none s
  /-- It is looked at when a line has been begun and its program has not. -/
  | begun {s after : Shell} {line rest : List UInt8} {command : String}
      (first : FirstLine s.ahead line rest) (legible : Text.Utf8.decode? line = some command)
      (begins : (s.facing rest).begin command = (after, .running)) :
      Conversation s [exchange line rest s after] none after
  /-- It is looked at when the program of a line is on its way. -/
  | underway {s after : Shell} {line rest : List UInt8} {command : String} {fuel : Nat}
      (first : FirstLine s.ahead line rest) (legible : Text.Utf8.decode? line = some command)
      (executed : (s.facing rest).execute fuel command = (after, none)) :
      Conversation s [exchange line rest s after] none after
  /-- Nothing is left of the stream. -/
  | endOfInput {s : Shell} (nothing : s.ahead = []) : Conversation s [] (some .endOfInput) s
  /-- The next line is not a text. -/
  | notText {s : Shell} {line rest : List UInt8} (first : FirstLine s.ahead line rest)
      (illegible : Text.Utf8.decode? line = none) :
      Conversation s [⟨line, []⟩] (some .notText) (s.facing rest)
  /-- The next line asks to quit. -/
  | quit {s after : Shell} {line rest : List UInt8} {command : String} {fuel : Nat}
      (first : FirstLine s.ahead line rest) (legible : Text.Utf8.decode? line = some command)
      (executed : (s.facing rest).execute fuel command = (after, some .quit)) :
      Conversation s [exchange line rest s after] (some .quit) after
  /-- The next line is executed, and more lines are wanted. -/
  | goOn {s after last : Shell} {line rest : List UInt8} {command : String} {fuel : Nat}
      {exchanges : List Exchange} {ending : Option Ending}
      (first : FirstLine s.ahead line rest) (legible : Text.Utf8.decode? line = some command)
      (executed : (s.facing rest).execute fuel command = (after, some .goOn))
      (later : Conversation after exchanges ending last) :
      Conversation s (exchange line rest s after :: exchanges) ending last

/-! ### What is taken from the stream -/

variable {s after last : Shell} {exchanges : List Exchange} {ending : Option Ending}

/-- What moves of a session take from its stream, and what they leave of it. -/
theorem bytes_exchange {on on' : Option Debugger.Pace} (first : FirstLine s.ahead line rest)
    (leads : ((s.facing rest).moment on).Leads (after.moment on')) :
    (exchange line rest s after).bytes ++ after.ahead = s.ahead := by
  obtain ⟨count, counted, taken⟩ := leads.reads
  have reads : after.reads = s.reads + count := counted
  have ahead : after.ahead = rest.drop count := taken
  rw [Exchange.bytes, exchange, reads, ahead, Nat.add_sub_cancel_left, List.append_assoc,
    List.take_append_drop, first.whole]

theorem bytes_exchange_of_executed {command : String} {fuel : Nat} {flow : Option Flow}
    (first : FirstLine s.ahead line rest)
    (executed : (s.facing rest).execute fuel command = (after, flow)) :
    (exchange line rest s after).bytes ++ after.ahead = s.ahead := by
  have leads := (s.facing rest).leads_execute fuel command
  rw [executed] at leads
  exact bytes_exchange first leads

/-- The lines and what was read behind each of them are what is gone from the stream. -/
theorem Conversation.bytes (h : Conversation s exchanges ending last) :
    exchanges.flatMap Exchange.bytes ++ last.ahead = s.ahead := by
  induction h with
  | between | endOfInput => rfl
  | notText first =>
    rw [List.flatMap_singleton, Exchange.bytes, List.append_nil]
    exact first.whole
  | @begun s after line rest command first legible begins =>
    have leads := (s.facing rest).leads_begin command
    rw [begins] at leads
    rw [List.flatMap_singleton]
    exact bytes_exchange first leads
  | underway first legible executed | quit first legible executed =>
    rw [List.flatMap_singleton]
    exact bytes_exchange_of_executed first executed
  | goOn first legible executed later ih =>
    rw [List.flatMap_cons, List.append_assoc, ih]
    exact bytes_exchange_of_executed first executed

/-! ### Alike shells -/

theorem Shell.Alike.facing {s s' : Shell} (h : s.Alike s') (stream : List UInt8) :
    (s.facing stream).Alike (s'.facing stream) := by
  rw [Shell.facing, Shell.facing, h.debugger]
  exact congruence_alike.replaced h _

theorem Shell.Alike.ahead {s s' : Shell} (h : s.Alike s') : s.ahead = s'.ahead :=
  congrArg (·.machine.input) h.debugger

theorem exchange_of_alike {s s' after after' : Shell} (h : s.Alike s') (h' : after.Alike after')
    (line rest : List UInt8) : exchange line rest s after = exchange line rest s' after' := by
  have before : s.reads = s'.reads := congrArg (·.signal.reads) h.debugger
  have since : after.reads = after'.reads := congrArg (·.signal.reads) h'.debugger
  rw [exchange, exchange, before, since]

theorem executed_of_alike {s' : Shell} (alike : s.Alike s') {command : String} {fuel : Nat}
    {flow : Option Flow} (executed : (s.facing rest).execute fuel command = (after, flow)) :
    ∃ after', (s'.facing rest).execute fuel command = (after', flow) ∧ after.Alike after' ∧
      ∀ line, exchange line rest s after = exchange line rest s' after' := by
  obtain ⟨same, reply⟩ := Shell.congruence_alike.execute (alike.facing rest) fuel command
  rw [executed] at same reply
  exact ⟨_, Prod.ext rfl reply.symm, same, fun line => exchange_of_alike alike same line rest⟩

/-- How output has been cut up makes no difference to a conversation. -/
theorem Conversation.of_alike (h : Conversation s exchanges ending last) {s' : Shell}
    (alike : s.Alike s') : ∃ last', Conversation s' exchanges ending last' ∧ last.Alike last' := by
  induction h generalizing s' with
  | between => exact ⟨s', .between s', alike⟩
  | endOfInput nothing => exact ⟨s', .endOfInput (alike.ahead ▸ nothing), alike⟩
  | @notText s line rest first illegible =>
    exact ⟨_, .notText (alike.ahead ▸ first) illegible, alike.facing rest⟩
  | @begun s after line rest command first legible begins =>
    obtain ⟨same, reply⟩ := Shell.congruence_alike.begin (alike.facing rest) command
    rw [begins] at same reply
    rw [exchange_of_alike alike same]
    exact ⟨_, .begun (alike.ahead ▸ first) legible (Prod.ext rfl reply.symm), same⟩
  | underway first legible executed =>
    obtain ⟨_, executed', same, taken⟩ := executed_of_alike alike executed
    rw [taken]
    exact ⟨_, .underway (alike.ahead ▸ first) legible executed', same⟩
  | quit first legible executed =>
    obtain ⟨_, executed', same, taken⟩ := executed_of_alike alike executed
    rw [taken]
    exact ⟨_, .quit (alike.ahead ▸ first) legible executed', same⟩
  | goOn first legible executed later ih =>
    obtain ⟨_, executed', same, taken⟩ := executed_of_alike alike executed
    obtain ⟨last', later', same'⟩ := ih same
    rw [taken]
    exact ⟨last', .goOn (alike.ahead ▸ first) legible executed' later', same'⟩

end Brainfuck
