import Brainfuck.Proofs.Session.Conversation

/-!
# Sessions hold conversations

A session goes on turn by turn and lets its program run in slices. `session_executes_line_by_line`
says that nothing of this can be seen: whenever it is looked at it is as in a conversation, and if
the conversation has an ending the session comes to it, whatever the slices.
-/

namespace Brainfuck

variable {s b t after last : Shell} {stream line rest : List UInt8} {command : String}
variable {fuel : Nat} {exchanges : List Exchange} {ending : Ending}

namespace Session

/-! ### Single turns -/

theorem turn_of_nothing (nothing : s.ahead = []) (fuel : Nat) :
    turn fuel { shell := s } = ({ shell := s }, some .endOfInput) := by
  have empty : ({ shell := s } : Session).unread = [] := nothing
  simp [turn, empty]

/-- A turn between two lines takes the first line of the stream. -/
theorem turn_of_firstLine (first : FirstLine s.ahead line rest) (fuel : Nat) :
    turn fuel { shell := s } =
      match Text.Utf8.decode? line with
      | none => ({ shell := s.facing rest }, some .notText)
      | some command =>
        match (s.facing rest).begin command with
        | (after, .done .goOn) => ({ shell := after }, none)
        | (after, .done .quit) => ({ shell := after }, some .quit)
        | (after, .running) => ({ shell := after, busy := true }, none) := by
  have split : Text.splitLine ({ shell := s } : Session).unread = (line, rest) := first.splitLine_eq
  have some : ({ shell := s } : Session).unread ≠ [] := first.ne_nil
  rw [turn, if_neg (by simp), if_neg (by simpa using some), split]
  rfl

theorem turn_of_illegible (first : FirstLine s.ahead line rest)
    (illegible : Text.Utf8.decode? line = none) (fuel : Nat) :
    turn fuel { shell := s } = ({ shell := s.facing rest }, some .notText) := by
  rw [turn_of_firstLine first, illegible]

theorem turn_of_quit (first : FirstLine s.ahead line rest)
    (legible : Text.Utf8.decode? line = some command) {enough : Nat}
    (executed : (s.facing rest).execute enough command = (after, some .quit)) (fuel : Nat) :
    turn fuel { shell := s } = ({ shell := after }, some .quit) := by
  rcases Shell.begin_of_execute executed with begins | ⟨other, -⟩
  · simp only [turn_of_firstLine first, legible, begins]
  · cases other

/-- A turn in which the program is on its way. -/
theorem turn_of_busy (b : Shell) (fuel : Nat) :
    turn fuel { shell := b, busy := true } =
      ({ shell := (b.proceed fuel).1, busy := !(b.proceed fuel).2 }, none) := by
  rw [turn, if_pos rfl]

/-- A session stays where it has ended. -/
theorem turns_of_ending {start ended : Session} (turned : turn fuel start = (ended, some ending))
    {n : Nat} (positive : 0 < n) : turns fuel n start = (ended, some ending) := by
  obtain ⟨n, rfl⟩ := Nat.exists_eq_add_one.mpr positive
  rw [turns, turned]

/-! ### Programs on their way -/

/-- A program that has been given turns is still on its way, or has halted in one of them. -/
theorem turns_of_busy (b : Shell) (fuel n : Nat) :
    (∃ t, turns fuel n { shell := b, busy := true } = ({ shell := t, busy := true }, none) ∧
      (t = b ∨ ∃ enough, (b.proceed enough).2 = false ∧ t.Alike (b.proceed enough).1)) ∨
    (∃ t k enough, k < n ∧ turns fuel n { shell := b, busy := true } = turns fuel k { shell := t } ∧
      (b.proceed enough).2 = true ∧ t.Alike (b.proceed enough).1) := by
  induction n generalizing b with
  | zero => exact .inl ⟨b, rfl, .inl rfl⟩
  | succ n ih =>
    rw [turns, turn_of_busy]
    cases halted : (b.proceed fuel).2 with
    | true => exact .inr ⟨_, n, fuel, Nat.lt_succ_self n, rfl, halted, .refl _⟩
    | false =>
      -- What the next turns add to this slice is one longer slice.
      have added := Shell.proceed_add halted
      rcases ih (b.proceed fuel).1 with ⟨t, reached, same | ⟨more, broken, same⟩⟩ |
        ⟨t, k, more, fewer, reached, halted', same⟩
      · exact .inl ⟨t, reached, .inr ⟨fuel, halted, same ▸ .refl _⟩⟩
      · obtain ⟨alike, reply⟩ := added more
        exact .inl ⟨t, reached, .inr ⟨fuel + more, reply.symm.trans broken, same.trans alike⟩⟩
      · obtain ⟨alike, reply⟩ := added more
        exact .inr ⟨t, k, fuel + more, Nat.lt_succ_of_lt fewer, reached,
          reply.symm.trans halted', same.trans alike⟩

/-! ### A session is a conversation -/

/-- Whenever a session is looked at, it is as in a conversation. -/
theorem exists_conversation (fuel n : Nat) (s : Shell) :
    ∃ exchanges last, Conversation s exchanges (turns fuel n { shell := s }).2 last ∧
      (turns fuel n { shell := s }).1.shell.Alike last := by
  induction n using Nat.strongRecOn generalizing s with
  | _ n ih =>
  cases n with
  | zero => exact ⟨[], s, .between s, .refl s⟩
  | succ n =>
    rw [turns]
    by_cases nothing : s.ahead = []
    · rw [turn_of_nothing nothing]
      exact ⟨[], s, .endOfInput nothing, .refl s⟩
    · have first := firstLine_splitLine nothing
      generalize (Text.splitLine s.ahead).1 = line at first
      generalize (Text.splitLine s.ahead).2 = rest at first
      cases legible : Text.Utf8.decode? line with
      | none =>
        rw [turn_of_illegible first legible]
        exact ⟨_, _, .notText first legible, .refl _⟩
      | some command =>
        simp only [turn_of_firstLine first, legible]
        rcases begins : (s.facing rest).begin command with ⟨after, (_ | _) | _⟩
        · obtain ⟨exchanges, last, later, same⟩ := ih n (Nat.lt_succ_self n) after
          exact ⟨_, last, .goOn first legible (Shell.execute_of_done begins 0) later, same⟩
        · exact ⟨_, _, .quit first legible (Shell.execute_of_done begins 0), .refl _⟩
        · rcases turns_of_busy after fuel n with ⟨t, reached, rfl | ⟨enough, broken, same⟩⟩ |
            ⟨t, k, enough, fewer, reached, halted, same⟩
          · simp only [reached]
            exact ⟨_, _, .begun first legible begins, .refl _⟩
          · simp only [reached]
            have executed := Shell.execute_of_running begins enough
            rw [broken] at executed
            exact ⟨_, _, .underway first legible executed, same⟩
          · obtain ⟨exchanges, last, later, alike⟩ := ih k (by omega) t
            obtain ⟨last', later', alike'⟩ := later.of_alike same
            simp only [reached]
            have executed := Shell.execute_of_running begins enough
            rw [halted] at executed
            exact ⟨_, last', .goOn first legible executed later', alike.trans alike'⟩

/-! ### A conversation is what a session comes to -/

/-- What a run comes to does not depend on the fuel. -/
theorem proceed_of_halted {enough : Nat} (halted : (b.proceed enough).2 = true)
    (halted' : (b.proceed fuel).2 = true) : b.proceed enough = b.proceed fuel := by
  rcases Nat.le_total enough fuel with le | le
  · obtain ⟨more, rfl⟩ := Nat.exists_eq_add_of_le le
    exact (Shell.proceed_add_of_halted halted more).symm
  · obtain ⟨more, rfl⟩ := Nat.exists_eq_add_of_le le
    exact Shell.proceed_add_of_halted halted' more

/-- A program that comes to an outcome does so in slices too. The induction is on what is left to
do behind the first slice. -/
theorem turns_of_halted (positive : 0 < fuel) {enough : Nat}
    (halted : (b.proceed enough).2 = true) :
    ∃ n t, (b.proceed enough).1.Alike t ∧ ∀ more,
      turns fuel (more + n) { shell := b, busy := true } = turns fuel more { shell := t } := by
  induction enough using Nat.strongRecOn generalizing b with
  | _ enough ih =>
  cases sliced : (b.proceed fuel).2 with
  | true =>
    refine ⟨1, (b.proceed fuel).1, ?_, fun more => ?_⟩
    · rw [proceed_of_halted halted sliced]
      exact .refl _
    · rw [turns, turn_of_busy, sliced]
      rfl
  | false =>
    have short : fuel < enough := by
      by_contra notShort
      obtain ⟨more, rfl⟩ := Nat.exists_eq_add_of_le (Nat.le_of_not_lt notShort)
      rw [Shell.proceed_add_of_halted halted, halted] at sliced
      cases sliced
    obtain ⟨rest, rfl⟩ := Nat.exists_eq_add_of_lt short
    obtain ⟨alike, reply⟩ := Shell.proceed_add sliced (rest + 1)
    obtain ⟨n, t, same, reached⟩ := ih (rest + 1) (by omega) (reply.trans halted)
    refine ⟨n + 1, t, alike.symm.trans same, fun more => ?_⟩
    rw [← reached, ← Nat.add_assoc, turns, turn_of_busy, sliced]
    rfl

/-- If a conversation has an ending, a session comes to it. -/
theorem turns_of_conversation (positive : 0 < fuel) {reached : Option Ending}
    (h : Conversation s exchanges reached last) (ended : reached = some ending) {s' : Shell}
    (alike : s.Alike s') :
    ∃ n last', last.Alike last' ∧
      ∀ more, turns fuel (more + n) { shell := s' } = ({ shell := last' }, some ending) := by
  induction h generalizing s' with
  | between | begun | underway => cases ended
  | endOfInput nothing =>
    cases ended
    exact ⟨1, s', alike, fun more =>
      turns_of_ending (turn_of_nothing (alike.ahead ▸ nothing) fuel) more.succ_pos⟩
  | @notText s line rest first illegible =>
    cases ended
    exact ⟨1, _, alike.facing rest, fun more =>
      turns_of_ending (turn_of_illegible (alike.ahead ▸ first) illegible fuel) more.succ_pos⟩
  | quit first legible executed =>
    cases ended
    obtain ⟨after', executed', same, -⟩ := executed_of_alike alike executed
    exact ⟨1, after', same, fun more =>
      turns_of_ending (turn_of_quit (alike.ahead ▸ first) legible executed' fuel) more.succ_pos⟩
  | goOn first legible executed later ih =>
    obtain ⟨after', executed', same, -⟩ := executed_of_alike alike executed
    rcases Shell.begin_of_execute executed' with begins | ⟨-, begun, begins, ran⟩
    · obtain ⟨n, last', same', later⟩ := ih ended same
      refine ⟨n + 1, last', same', fun more => ?_⟩
      rw [← later more, ← Nat.add_assoc]
      simp only [turns, turn_of_firstLine (alike.ahead ▸ first), legible, begins]
    · -- One turn begins the line, some more let its program come to an outcome.
      obtain ⟨k, t, halted, sliced⟩ := turns_of_halted (b := begun) positive (by rw [ran])
      rw [ran] at halted
      obtain ⟨n, last', same', later⟩ := ih ended (same.trans halted)
      refine ⟨n + k + 1, last', same', fun more => ?_⟩
      rw [← later more, ← sliced, show more + (n + k + 1) = more + n + k + 1 by omega]
      simp only [turns, turn_of_firstLine (alike.ahead ▸ first), legible, begins]

/-- With enough fuel the ending of a conversation is reached within two turns for each line. -/
theorem run_of_conversation {reached : Option Ending} (h : Conversation s exchanges reached last)
    (ended : reached = some ending) :
    ∃ enough, ∀ fuel, enough ≤ fuel → ∀ n, 2 * s.ahead.length < n →
      turns fuel n { shell := s } = ({ shell := last }, some ending) := by
  induction h with
  | between | begun | underway => cases ended
  | endOfInput nothing =>
    cases ended
    exact ⟨0, fun fuel _ n long =>
      turns_of_ending (turn_of_nothing nothing fuel) (Nat.zero_lt_of_lt long)⟩
  | notText first illegible =>
    cases ended
    exact ⟨0, fun fuel _ n long =>
      turns_of_ending (turn_of_illegible first illegible fuel) (Nat.zero_lt_of_lt long)⟩
  | quit first legible executed =>
    cases ended
    exact ⟨0, fun fuel _ n long =>
      turns_of_ending (turn_of_quit first legible executed fuel) (Nat.zero_lt_of_lt long)⟩
  | @goOn s after last line rest command enough exchanges _ first legible executed later ih =>
    obtain ⟨enough', reaches⟩ := ih ended
    have shorter : after.ahead.length < s.ahead.length := by
      have taken := congrArg List.length (bytes_exchange_of_executed first executed)
      have some := List.length_pos_iff.mpr first.nonempty
      simp only [List.length_append, Exchange.bytes, exchange] at taken
      omega
    refine ⟨max enough enough', fun fuel le n long => ?_⟩
    obtain ⟨n, rfl⟩ := Nat.exists_eq_add_of_le' (show 2 ≤ n by omega)
    rcases Shell.begin_of_execute executed with begins | ⟨-, begun, begins, ran⟩
    · simp only [turns, turn_of_firstLine first, legible, begins]
      exact reaches fuel (by omega) (n + 1) (by omega)
    · have halted : begun.proceed fuel = (after, true) := by
        obtain ⟨more, rfl⟩ := Nat.exists_eq_add_of_le (Nat.le_trans (Nat.le_max_left _ _) le)
        rw [Shell.proceed_add_of_halted (by rw [ran]), ran]
      simp only [turns, turn_of_firstLine first, legible, begins]
      rw [turn_of_busy, halted]
      exact reaches fuel (by omega) n (by omega)

end Session

/-- A session executes the lines of its stream one by one, and its programs read what stands behind
their lines. What a conversation has taken is what is gone from the stream; whenever the session is
looked at it is as in a conversation; and it comes to the ending of its conversation, in slices of
any length, or with enough fuel in a single run. -/
theorem session_executes_line_by_line (p : Program) (stream : List UInt8) (settings : Settings)
    (schedule : Schedule) :
    let start := Session.start p stream settings schedule
    (∀ exchanges reached last, Conversation start.shell exchanges reached last →
      exchanges.flatMap Exchange.bytes ++ last.ahead = stream) ∧
    (∀ fuel n, ∃ exchanges last,
      Conversation start.shell exchanges (start.turns fuel n).2 last ∧
        (start.turns fuel n).1.shell.Alike last) ∧
    ∀ exchanges ending last, Conversation start.shell exchanges (some ending) last →
      (∀ fuel, 0 < fuel → ∃ n last', last.Alike last' ∧
        ∀ more, start.turns fuel (more + n) = ({ shell := last' }, some ending)) ∧
      ∃ enough, ∀ fuel, enough ≤ fuel → start.run fuel = ({ shell := last }, some ending) := by
  intro start
  refine ⟨fun exchanges reached last held => held.bytes,
    fun fuel n => Session.exists_conversation fuel n start.shell,
    fun exchanges ending last held => ⟨fun fuel positive => ?_, ?_⟩⟩
  · exact Session.turns_of_conversation positive held rfl (.refl _)
  · obtain ⟨enough, reaches⟩ := Session.run_of_conversation held rfl
    exact ⟨enough, fun fuel le => reaches fuel le _ (Nat.lt_succ_of_lt (Nat.lt_succ_self _))⟩

/-- The program `,.` reads the byte behind its command line, and the line that is quit by begins
behind that byte. -/
theorem quit_leaves_rest_unread :
    let p : Program := ⟨#[⟨.input, 1⟩, ⟨.output, 1⟩], some #[some 0], 1, #[]⟩
    let start := Session.start p [114, 10, 88, 113, 10, 115, 10] {} {}
    Program.ofSource true ",." = .ok p ∧
      ∃ last, Conversation start.shell [⟨[114, 10], [88]⟩, ⟨[113, 10], []⟩] (some .quit) last ∧
        last.ahead = [115, 10] ∧ last.written = #[88] ∧
        ∃ enough, ∀ fuel, enough ≤ fuel → start.run fuel = ({ shell := last }, some .quit) := by
  intro p start
  have accepted : Program.ofSource true ",." = .ok p := by cbv
  let ran := (start.shell.facing [88, 113, 10, 115, 10]).execute 3 "r\n"
  let quit := (ran.1.facing [115, 10]).execute 0 "q\n"
  have firstLine : FirstLine start.shell.ahead [114, 10] [88, 113, 10, 115, 10] :=
    ⟨rfl, by decide, by decide, by decide⟩
  have nextLine : FirstLine ran.1.ahead [113, 10] [115, 10] :=
    ⟨by decide +kernel, by decide, by decide, by decide⟩
  have goesOn : (start.shell.facing [88, 113, 10, 115, 10]).execute 3 "r\n" = (ran.1, some .goOn) :=
    Prod.ext rfl (by decide +kernel)
  have quits : (ran.1.facing [115, 10]).execute 0 "q\n" = (quit.1, some .quit) :=
    Prod.ext rfl (by decide +kernel)
  have later : Conversation ran.1 [exchange [113, 10] [115, 10] ran.1 quit.1] (some .quit) quit.1 :=
    .quit nextLine (Text.Utf8.decode?_encode "q\n") quits
  have held := Conversation.goOn firstLine (Text.Utf8.decode?_encode "r\n") goesOn later
  have read : exchange [114, 10] [88, 113, 10, 115, 10] start.shell ran.1 = ⟨[114, 10], [88]⟩ := by
    rw [exchange, show ran.1.reads - start.shell.reads = 1 by decide +kernel]
    rfl
  have nothing : exchange [113, 10] [115, 10] ran.1 quit.1 = ⟨[113, 10], []⟩ := by
    rw [exchange, show quit.1.reads - ran.1.reads = 0 by decide +kernel]
    rfl
  rw [read, nothing] at held
  have laws := session_executes_line_by_line p [114, 10, 88, 113, 10, 115, 10] {} {}
  have taken := laws.1 _ _ _ held
  have unread : quit.1.ahead = [115, 10] := by simpa [Exchange.bytes] using taken
  exact ⟨accepted, quit.1, held, unread, by decide +kernel, (laws.2.2 _ _ _ held).2⟩

end Brainfuck
