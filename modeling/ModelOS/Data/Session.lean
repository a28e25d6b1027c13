import Mathlib

namespace ModelOS.Data

/-! Programs that read one stream and write another. A read waits until all it asks for
has come. -/

inductive Session.Outcome (ε α : Type)
  | done (value : α)
  | failed (error : ε)
  | waiting
deriving DecidableEq

/-- Where a program stands on an input: its outcome, what it has not read and what it
has sent. -/
structure Session.Progress (Symbol ε α : Type) where
  outcome : Session.Outcome ε α
  rest : List Symbol
  sent : List Symbol
deriving DecidableEq

def Session (Symbol ε α : Type) :=
  List Symbol → Session.Progress Symbol ε α

variable {Symbol ε α β σ : Type}

namespace Session

/-- The same, after something else was sent. -/
def Progress.after (progress : Progress Symbol ε α) (sent : List Symbol) : Progress Symbol ε α :=
  { progress with sent := sent ++ progress.sent }

/-- The same, with more to read. -/
def Progress.followed (progress : Progress Symbol ε α) (more : List Symbol) : Progress Symbol ε α :=
  { progress with rest := progress.rest ++ more }

def bind (first : Session Symbol ε α) (next : α → Session Symbol ε β) :
    Session Symbol ε β := fun input =>
  match first input with
  | ⟨.done value, rest, sent⟩ => (next value rest).after sent
  | ⟨.failed error, rest, sent⟩ => ⟨.failed error, rest, sent⟩
  | ⟨.waiting, rest, sent⟩ => ⟨.waiting, rest, sent⟩

instance : Monad (Session Symbol ε) where
  pure value := fun input => ⟨.done value, input, []⟩
  bind := bind

def fail (error : ε) : Session Symbol ε α := fun input =>
  ⟨.failed error, input, []⟩

def check (result : Except ε α) : Session Symbol ε α :=
  match result with
  | .ok value => pure value
  | .error error => fail error

def send (symbols : List Symbol) : Session Symbol ε Unit := fun input =>
  ⟨.done (), input, symbols⟩

def receive (count : Nat) : Session Symbol ε (List Symbol) := fun input =>
  if count ≤ input.length then ⟨.done (input.take count), input.drop count, []⟩
  else ⟨.waiting, input, []⟩

def rounds (body : σ → Session Symbol ε (σ ⊕ α)) : Nat → σ → Session Symbol ε α
  | 0, _ => fun input => ⟨.waiting, input, []⟩
  | fuel + 1, state => do
      match ← body state with
      | .inl next => rounds body fuel next
      | .inr value => pure value

def iterate (body : σ → Session Symbol ε (σ ⊕ α)) (state : σ) : Session Symbol ε α :=
  fun input => rounds body (input.length + 1) state input

def Consumes (body : σ → Session Symbol ε (σ ⊕ α)) : Prop :=
  ∀ state input next rest sent,
    body state input = ⟨.done (.inl next), rest, sent⟩ → rest.length < input.length

/-- It reads the whole input and comes to a value, whatever follows. -/
def Runs (session : Session Symbol ε α) (input : List Symbol) (value : α)
    (output : List Symbol) : Prop :=
  ∀ rest, session (input ++ rest) = ⟨.done value, rest, output⟩

theorem bind_eq (first : Session Symbol ε α) (next : α → Session Symbol ε β) :
    first >>= next = bind first next :=
  rfl

variable {first : Session Symbol ε α} {next : α → Session Symbol ε β}
  {input rest sent : List Symbol}

theorem bind_done (finished : first input = ⟨.done value, rest, sent⟩) :
    (first >>= next) input = (next value rest).after sent := by
  rw [bind_eq, bind, finished]

theorem bind_failed (stopped : first input = ⟨.failed error, rest, sent⟩) :
    (first >>= next) input = ⟨.failed error, rest, sent⟩ := by
  rw [bind_eq, bind, stopped]

theorem bind_waiting (waits : first input = ⟨.waiting, rest, sent⟩) :
    (first >>= next) input = ⟨.waiting, rest, sent⟩ := by
  rw [bind_eq, bind, waits]

@[simp] theorem pure_bind (value : α) (next : α → Session Symbol ε β) :
    Pure.pure value >>= next = next value :=
  rfl

@[simp] theorem check_ok (value : α) : (check (.ok value) : Session Symbol ε α) = Pure.pure value :=
  rfl

@[simp] theorem pure_apply (value : α) (input : List Symbol) :
    (pure value : Session Symbol ε α) input = ⟨.done value, input, []⟩ :=
  rfl

theorem sent_bind (first : Session Symbol ε α) (next : α → Session Symbol ε β)
    (input : List Symbol) : (first input).sent <+: ((first >>= next) input).sent := by
  rw [bind_eq, bind]
  split
  · next value rest sent taken =>
    rw [taken]
    exact List.prefix_append _ _
  · next error rest sent taken => simp only [taken, List.prefix_rfl]
  · next rest sent taken => simp only [taken, List.prefix_rfl]

theorem receive_waits {count : Nat} (short : input.length < count) :
    (receive count : Session Symbol ε _) input = ⟨.waiting, input, []⟩ :=
  if_neg (by omega)

namespace Runs

variable {first : Session Symbol ε α} {next : α → Session Symbol ε β}
  {input output following reply : List Symbol} {value : α} {result : β}

theorem pure (value : α) : Runs (Pure.pure value : Session Symbol ε α) [] value [] :=
  fun _ => rfl

theorem send (symbols : List Symbol) :
    Runs (Session.send symbols : Session Symbol ε Unit) [] () symbols :=
  fun _ => rfl

theorem receive (length : input.length = count) :
    Runs (Session.receive count : Session Symbol ε _) input input [] := by
  intro rest
  rw [Session.receive, if_pos (by rw [List.length_append]; omega), ← length,
    List.take_left, List.drop_left]

variable (runs : Runs first input value output)
include runs

theorem bind_apply (rest : List Symbol) :
    (first >>= next) (input ++ rest) = (next value rest).after output :=
  bind_done (runs rest)

theorem bind (runsNext : Runs (next value) following result reply) :
    Runs (first >>= next) (input ++ following) result (output ++ reply) := by
  intro rest
  rw [List.append_assoc, runs.bind_apply, runsNext]
  rfl

theorem prefix_bind (later : sent <+: (next value rest).sent) :
    output ++ sent <+: ((first >>= next) (input ++ rest)).sent := by
  rw [runs.bind_apply]
  exact (List.prefix_append_right_inj output).mpr later

theorem prefix_sent (rest : List Symbol) : output <+: ((first >>= next) (input ++ rest)).sent := by
  rw [runs.bind_apply]
  exact List.prefix_append _ _

theorem map (function : α → β) :
    Runs (first >>= fun value => Pure.pure (function value)) input (function value) output := by
  intro rest
  rw [runs.bind_apply, pure_apply, Progress.after, List.append_nil]

end Runs

variable {body : σ → Session Symbol ε (σ ⊕ α)}

theorem rounds_eq (consumes : Consumes body)
    {fuel more : Nat} (enough : input.length < fuel) (enoughToo : input.length < more) :
    rounds body fuel state input = rounds body more state input := by
  induction fuel generalizing state input more with
  | zero => omega
  | succ fuel ih =>
    cases more with
    | zero => omega
    | succ more =>
      cases taken : body state input with
      | mk outcome rest sent =>
        cases outcome with
        | done round =>
          rw [rounds, rounds, bind_done taken, bind_done taken]
          cases round with
          | inl next =>
            have shorter := consumes state input next rest sent taken
            have rest := @ih rest next more (by omega) (by omega)
            exact congrArg (·.after sent) rest
          | inr value => rfl
        | failed error => rw [rounds, rounds, bind_failed taken, bind_failed taken]
        | waiting => rw [rounds, rounds, bind_waiting taken, bind_waiting taken]

theorem iterate_eq (consumes : Consumes body) (state : σ) :
    iterate body state = (body state >>= fun round =>
      match round with
      | .inl next => iterate body next
      | .inr value => Pure.pure value) := by
  funext input
  rw [iterate, rounds]
  cases taken : body state input with
  | mk outcome rest sent =>
    cases outcome with
    | done round =>
      rw [bind_done taken, bind_done taken]
      cases round with
      | inl next =>
        have shorter := consumes state input next rest sent taken
        exact congrArg (·.after sent) (rounds_eq consumes shorter (Nat.lt_succ_self _))
      | inr value => rfl
    | failed error => rw [bind_failed taken, bind_failed taken]
    | waiting => rw [bind_waiting taken, bind_waiting taken]

def Fails (session : Session Symbol ε α) (input : List Symbol) : Prop :=
  ∃ error, (session input).outcome = .failed error

theorem Fails.bind (fails : Fails first input) (next : α → Session Symbol ε β) :
    Fails (first >>= next) input := by
  obtain ⟨error, failed⟩ := fails
  refine ⟨error, ?_⟩
  cases taken : first input with
  | mk outcome rest sent =>
    rw [taken] at failed
    dsimp only at failed
    rw [failed] at taken
    rw [bind_failed taken]

theorem Fails.after (finished : first input = ⟨.done value, rest, sent⟩)
    (fails : Fails (next value) rest) : Fails (first >>= next) input := by
  obtain ⟨error, failed⟩ := fails
  refine ⟨error, ?_⟩
  rw [bind_done finished]
  exact failed

theorem Fails.check {error : ε} : Fails (check (.error error) : Session Symbol ε α) input :=
  ⟨error, rfl⟩

def Writes (session : Session Symbol ε α) (holds : α → Prop) : Prop :=
  ∀ input, Fails session input ∨
    ∃ value sent, session input = ⟨.done value, input, sent⟩ ∧ holds value

namespace Writes

theorem bind {first : Session Symbol ε α} {next : α → Session Symbol ε β}
    {holds : α → Prop} {holdsNext : β → Prop} (writes : Writes first holds)
    (writesNext : ∀ value, holds value → Writes (next value) holdsNext) :
    Writes (first >>= next) holdsNext := by
  intro input
  obtain fails | ⟨value, sent, finished, valid⟩ := writes input
  · exact .inl (fails.bind next)
  · obtain fails | ⟨result, reply, finishedNext, validNext⟩ := writesNext value valid input
    · exact .inl (.after finished fails)
    · refine .inr ⟨result, sent ++ reply, ?_, validNext⟩
      rw [bind_done finished, finishedNext]
      rfl

theorem pure (valid : holds value) :
    Writes (Pure.pure value : Session Symbol ε α) holds :=
  fun _ => .inr ⟨value, [], rfl, valid⟩

theorem check (result : Except ε α) :
    Writes (Session.check result : Session Symbol ε α) (result = .ok ·) := by
  intro input
  cases result with
  | ok value => exact .inr ⟨value, [], rfl, rfl⟩
  | error error => exact .inl .check

theorem send (symbols : List Symbol) :
    Writes (Session.send symbols : Session Symbol ε Unit) fun _ => True :=
  fun _ => .inr ⟨(), symbols, rfl, trivial⟩

end Writes

def Shrinks (session : Session Symbol ε α) : Prop :=
  ∀ input, (session input).rest.length ≤ input.length

namespace Shrinks

theorem bind {first : Session Symbol ε α} {next : α → Session Symbol ε β}
    (shrinks : Shrinks first) (shrinksNext : ∀ value, Shrinks (next value)) :
    Shrinks (first >>= next) := by
  intro input
  have before := shrinks input
  rw [bind_eq, Session.bind]
  split
  · next value rest sent taken =>
    rw [taken] at before
    exact Nat.le_trans (shrinksNext value rest) before
  · next error rest sent taken =>
    rw [taken] at before
    exact before
  · next rest sent taken =>
    rw [taken] at before
    exact before

theorem pure (value : α) : Shrinks (Pure.pure value : Session Symbol ε α) :=
  fun _ => Nat.le_refl _

theorem fail (error : ε) : Shrinks (Session.fail error : Session Symbol ε α) :=
  fun _ => Nat.le_refl _

theorem check (result : Except ε α) : Shrinks (Session.check result : Session Symbol ε α) := by
  cases result with
  | ok value => exact pure value
  | error error => exact fail error

theorem receive (count : Nat) : Shrinks (Session.receive count : Session Symbol ε _) := by
  intro input
  rw [Session.receive]
  split
  · exact List.length_drop ▸ Nat.sub_le _ _
  · exact Nat.le_refl _

end Shrinks

theorem Consumes.of_receive (positive : 0 < count)
    {next : σ → List Symbol → Session Symbol ε (σ ⊕ α)}
    (shrinks : ∀ state symbols, Shrinks (next state symbols)) :
    Consumes fun state => receive count >>= next state := by
  intro state input after rest sent taken
  change (receive count >>= next state) input = _ at taken
  by_cases enough : count ≤ input.length
  · rw [bind_done (if_pos enough)] at taken
    have shorter := shrinks state (input.take count) (input.drop count)
    rw [show rest = (next state (input.take count) (input.drop count)).rest from
      (congrArg Progress.rest taken).symm]
    rw [List.length_drop] at shorter
    omega
  · rw [bind_waiting (receive_waits (by omega))] at taken
    cases taken

structure CausalAt (session : Session Symbol ε α) (input more : List Symbol) : Prop where
  settled : (session input).outcome ≠ .waiting →
    session (input ++ more) = (session input).followed more
  sent : (session input).sent <+: (session (input ++ more)).sent

def Causal (session : Session Symbol ε α) : Prop :=
  ∀ input more, CausalAt session input more

variable {session : Session Symbol ε α}

theorem CausalAt.of_settled
    (settled : session (input ++ more) = (session input).followed more) :
    CausalAt session input more := by
  refine ⟨fun _ => settled, ?_⟩
  rw [settled]
  exact List.prefix_rfl

theorem CausalAt.bind {more : List Symbol} (causal : CausalAt first input more)
    (causalNext : ∀ value rest sent, first input = ⟨.done value, rest, sent⟩ →
      CausalAt (next value) rest more) : CausalAt (first >>= next) input more := by
  cases taken : first input with
  | mk outcome rest sent =>
    cases outcome with
    | done value =>
      have after : first (input ++ more) = ⟨.done value, rest ++ more, sent⟩ := by
        rw [causal.settled (by rw [taken]; rintro ⟨⟩), taken]
        rfl
      have later := causalNext value rest sent taken
      refine ⟨?_, ?_⟩
      · rw [bind_done taken, bind_done after]
        intro settled
        rw [later.settled settled]
        rfl
      · rw [bind_done taken, bind_done after]
        exact (List.prefix_append_right_inj sent).mpr later.sent
    | failed error =>
      have after : first (input ++ more) = ⟨.failed error, rest ++ more, sent⟩ := by
        rw [causal.settled (by rw [taken]; rintro ⟨⟩), taken]
        rfl
      apply CausalAt.of_settled
      rw [bind_failed taken, bind_failed after]
      rfl
    | waiting =>
      refine ⟨?_, ?_⟩
      · rw [bind_waiting taken]
        exact fun settled => absurd rfl settled
      · rw [bind_waiting taken]
        have before := causal.sent
        rw [taken] at before
        exact before.trans (sent_bind first next _)

namespace Causal

variable {first : Session Symbol ε α} {next : α → Session Symbol ε β}

theorem bind (causal : Causal first) (causalNext : ∀ value, Causal (next value)) :
    Causal (first >>= next) := fun input more =>
  (causal input more).bind fun value rest _ _ => causalNext value rest more

theorem pure (value : α) : Causal (Pure.pure value : Session Symbol ε α) :=
  fun _ _ => .of_settled rfl

theorem fail (error : ε) : Causal (Session.fail error : Session Symbol ε α) :=
  fun _ _ => .of_settled rfl

theorem check (result : Except ε α) : Causal (Session.check result : Session Symbol ε α) := by
  cases result with
  | ok value => exact pure value
  | error error => exact fail error

theorem send (symbols : List Symbol) : Causal (Session.send symbols : Session Symbol ε Unit) :=
  fun _ _ => .of_settled rfl

theorem receive (count : Nat) : Causal (Session.receive count : Session Symbol ε _) := by
  intro input more
  by_cases enough : count ≤ input.length
  · apply CausalAt.of_settled
    rw [Session.receive, Session.receive, if_pos enough,
      if_pos (by rw [List.length_append]; omega), Progress.followed,
      List.take_append_of_le_length enough, List.drop_append_of_le_length enough]
  · have waits := @receive_waits Symbol ε input count (by omega)
    refine ⟨fun settled => absurd ?_ settled, ?_⟩
    · rw [waits]
    · rw [waits]
      exact List.nil_prefix

theorem iterate (causal : ∀ state, Causal (body state)) (consumes : Consumes body) (state : σ) :
    Causal (Session.iterate body state) := by
  intro input more
  induction length : input.length using Nat.strongRecOn generalizing state input with
  | ind size ih =>
    rw [iterate_eq consumes]
    refine (causal state input more).bind ?_
    intro round rest sent taken
    cases round with
    | inl next =>
      have shorter := consumes state input next rest sent taken
      exact ih rest.length (by omega) next rest rfl
    | inr value => exact pure value rest more

theorem sent_mono (causal : Causal session) (extended : input <+: longer) :
    (session input).sent <+: (session longer).sent := by
  obtain ⟨more, rfl⟩ := extended
  exact (causal input more).sent

theorem outcome_eq (causal : Causal session) (extended : input <+: longer)
    (settled : (session input).outcome ≠ .waiting) :
    (session longer).outcome = (session input).outcome := by
  obtain ⟨more, rfl⟩ := extended
  rw [(causal input more).settled settled]
  rfl

end Causal

end Session

end ModelOS.Data
