import Mathlib

namespace ModelOS.NetSync

def lowQualityStrikeLimit : Nat := 5

def inboundInitialStrikes : Nat := 3

/-- Ten minutes; times are in nanoseconds. -/
def strikeDecayInterval : Nat := 600000000000

/-- A time that was never set is none. -/
structure PeerSyncState where
  nonTipStrikes : Nat
  lastStrikeDecay : Option Nat
deriving DecidableEq

namespace PeerSyncState

def decayedStrikes (state : PeerSyncState) (now : Nat) : Nat × PeerSyncState :=
  if state.nonTipStrikes = 0 then (0, state)
  else
    match state.lastStrikeDecay with
    | none => (state.nonTipStrikes, { state with lastStrikeDecay := some now })
    | some last =>
      let forgiven := (now - last) / strikeDecayInterval
      if 0 < forgiven then
        let left := if state.nonTipStrikes ≤ forgiven then 0 else state.nonTipStrikes - forgiven
        (left, ⟨left, some (last + forgiven * strikeDecayInterval)⟩)
      else (state.nonTipStrikes, state)

def isPeerHighQuality (state : PeerSyncState) (now : Nat) : Bool :=
  (state.decayedStrikes now).1 < lowQualityStrikeLimit

def strikeNonTip (state : PeerSyncState) (now : Nat) : PeerSyncState :=
  let state := (state.decayedStrikes now).2
  { nonTipStrikes :=
      if state.nonTipStrikes < lowQualityStrikeLimit then state.nonTipStrikes + 1
      else state.nonTipStrikes
    lastStrikeDecay := some (state.lastStrikeDecay.getD now) }

def newPeer (inbound : Bool) (now : Nat) : PeerSyncState :=
  ⟨if inbound then inboundInitialStrikes else 0, some now⟩

theorem fst_decayedStrikes (count last now : Nat) :
    (decayedStrikes ⟨count, some last⟩ now).1 = count - (now - last) / strikeDecayInterval := by
  rcases Nat.eq_zero_or_pos count with rfl | positive
  · rw [Nat.zero_sub]
    rfl
  · rw [decayedStrikes, if_neg positive.ne']
    dsimp only
    split
    · dsimp only
      split <;> omega
    · next none => rw [Nat.eq_zero_of_not_pos none, Nat.sub_zero]

/-- A strike is forgiven at each whole interval since the reference, whether or not the
record is read in between. -/
theorem decayedStrikes_spec {count last now : Nat} (order : last ≤ now) :
    ∃ left reference, decayedStrikes ⟨count, some last⟩ now = (left, ⟨left, some reference⟩) ∧
      left ≤ count ∧ reference ≤ now ∧
      (0 < left → now < reference + strikeDecayInterval ∧
        reference + left * strikeDecayInterval = last + count * strikeDecayInterval) ∧
      ∀ later, now ≤ later → (decayedStrikes ⟨count, some last⟩ later).1 =
        left - (later - reference) / strikeDecayInterval := by
  simp only [fst_decayedStrikes, strikeDecayInterval]
  rw [decayedStrikes, strikeDecayInterval]
  by_cases empty : count = 0
  · rw [if_pos empty]
    exact ⟨0, last, by rw [empty], by omega, order, by omega, by omega⟩
  · simp only [if_neg empty]
    by_cases due : 0 < (now - last) / 600000000000
    · rw [if_pos due]
      refine ⟨_, _, rfl, ?_, by omega, ?_, ?_⟩ <;> split <;> omega
    · rw [if_neg due]
      exact ⟨count, last, rfl, le_rfl, order, by omega, by omega⟩

theorem strikeNonTip_eq {state : PeerSyncState}
    (decayed : state.decayedStrikes now = (left, ⟨left, some reference⟩))
    (limit : left ≤ lowQualityStrikeLimit) :
    state.strikeNonTip now = ⟨min lowQualityStrikeLimit (left + 1), some reference⟩ := by
  rw [strikeNonTip, decayed]
  simp only [Option.getD_some, mk.injEq, and_true]
  split <;> omega

inductive StrikeEvent
  | strike
  | reset
  | read
deriving DecidableEq

def step (state : PeerSyncState) (now : Nat) : StrikeEvent → PeerSyncState
  | .strike => state.strikeNonTip now
  | .reset => { state with nonTipStrikes := 0 }
  | .read => (state.decayedStrikes now).2

/-- What has happened to the record of a peer, the latest event first. -/
abbrev History := List (Nat × StrikeEvent)

variable (inbound : Bool) (connected : Nat)

def run : History → PeerSyncState
  | [] => .newPeer inbound connected
  | (now, event) :: earlier => (run earlier).step now event

def clock : History → Nat
  | [] => connected
  | (now, _) :: _ => now

def Ordered : History → Prop
  | [] => True
  | (now, _) :: earlier => clock connected earlier ≤ now ∧ Ordered earlier

/-- The times of the strikes since the last reset. -/
def strikes : History → List Nat
  | [] => []
  | (now, .strike) :: earlier => now :: strikes earlier
  | (_, .reset) :: _ => []
  | (_, .read) :: earlier => strikes earlier

/-- The strikes since the last reset are all there ever were in the record: an inbound peer has
some from the start. -/
def FromZero (history : History) : Prop :=
  inbound = false ∨ ∃ time, (time, .reset) ∈ history

/-- Whenever the record is read next, the strikes of the last interval are in it. -/
def Remembers (history : History) : Prop :=
  ∀ now, clock connected history ≤ now →
    min lowQualityStrikeLimit
      ((strikes history).countP fun strike => now < strike + strikeDecayInterval) ≤
      ((run inbound connected history).decayedStrikes now).1

def NeverFaster : History → Prop
  | [] => Remembers inbound connected []
  | event :: earlier => Remembers inbound connected (event :: earlier) ∧ NeverFaster earlier

/-- A strike that finds the record empty comes at the reference itself, and one that finds
it full is not the last of as many as fill it. -/
def Timely : History → Prop
  | [] => True
  | (time, .strike) :: earlier =>
    let state := ((run inbound connected earlier).decayedStrikes time).2
    ((state.nonTipStrikes = 0 → state.lastStrikeDecay = some time) ∧
      (state.nonTipStrikes = lowQualityStrikeLimit → ∀ last ∈ state.lastStrikeDecay,
        ((time :: strikes earlier).countP fun strike => last < strike) <
          lowQualityStrikeLimit)) ∧ Timely earlier
  | (_, .reset) :: earlier | (_, .read) :: earlier => Timely earlier

variable {inbound connected} {history earlier : History} {time : Nat}

/-- The record that a history leaves, and how far it can outlast the strikes since a reset. -/
structure Tracks (inbound : Bool) (connected : Nat) (history : History) (count last : Nat) :
    Prop where
  state : run inbound connected history = ⟨count, some last⟩
  order : last ≤ clock connected history
  limit : count ≤ lowQualityStrikeLimit
  counted : FromZero inbound history → count ≤ (strikes history).length
  outlasts : 0 < count → FromZero inbound history → ∀ latest ∈ (strikes history).head?,
    last + count * strikeDecayInterval ≤ latest + (strikes history).length * strikeDecayInterval

theorem exists_tracks (ordered : Ordered connected history) :
    ∃ count last, Tracks inbound connected history count last := by
  induction history with
  | nil =>
    refine ⟨_, connected, rfl, le_rfl, ?_, ?_, by rintro _ _ _ ⟨⟩⟩
    · cases inbound <;> decide
    · rintro (rfl | ⟨_, ⟨⟩⟩)
      exact Nat.le_refl _
  | cons head earlier ih =>
    obtain ⟨now, event⟩ := head
    obtain ⟨later, ordered⟩ := ordered
    obtain ⟨count, last, state, order, limit, counted, outlasts⟩ := ih ordered
    obtain ⟨left, reference, decayed, fewer, bound, keeps, -⟩ :=
      @decayedStrikes_spec count last now (order.trans later)
    have before (other : event ≠ .reset) :
        FromZero inbound ((now, event) :: earlier) → FromZero inbound earlier := by
      simp [FromZero, other.symm]
    cases event with
    | strike =>
      have counted : FromZero inbound ((now, .strike) :: earlier) →
          min lowQualityStrikeLimit (left + 1) ≤ (now :: strikes earlier).length := by
        intro zero
        have fewerStill := fewer.trans (counted (before (by simp) zero))
        exact (min_le_right _ _).trans (Nat.succ_le_succ fewerStill)
      refine ⟨_, reference, ?_, bound, min_le_left _ _, counted, ?_⟩
      · rw [run, step, state]
        exact strikeNonTip_eq decayed (fewer.trans limit)
      · rintro _ zero latest ⟨⟩
        exact Nat.add_le_add bound (Nat.mul_le_mul_right _ (counted zero))
    | reset =>
      refine ⟨0, last, ?_, order.trans later, Nat.zero_le _, fun _ => Nat.zero_le _, by rintro ⟨⟩⟩
      rw [run, step, state]
    | read =>
      refine ⟨left, reference, ?_, bound, fewer.trans limit, ?_, ?_⟩
      · rw [run, step, state, decayed]
      · exact fun zero => fewer.trans (counted (before (by simp) zero))
      · intro positive zero
        rw [(keeps positive).2]
        exact outlasts (positive.trans_le fewer) (before (by simp) zero)

theorem exists_decayed (ordered : Ordered connected earlier)
    (later : clock connected earlier ≤ time) :
    ∃ left reference,
      (run inbound connected earlier).decayedStrikes time = (left, ⟨left, some reference⟩) ∧
      left ≤ lowQualityStrikeLimit ∧ reference ≤ time ∧
      (0 < left → time < reference + strikeDecayInterval) ∧
      ∀ now, time ≤ now → ((run inbound connected earlier).decayedStrikes now).1 =
        left - (now - reference) / strikeDecayInterval := by
  obtain ⟨count, last, tracks⟩ := @exists_tracks inbound connected earlier ordered
  obtain ⟨left, reference, decayed, fewer, bound, keeps, agrees⟩ :=
    @decayedStrikes_spec count last time (tracks.order.trans later)
  rw [tracks.state]
  exact ⟨left, reference, decayed, fewer.trans tracks.limit, bound,
    fun positive => (keeps positive).1, agrees⟩

theorem NeverFaster.remembers (always : NeverFaster inbound connected history) :
    Remembers inbound connected history := by
  cases history with
  | nil => exact always
  | cons event earlier => exact always.1

theorem remembers_strike_iff (ordered : Ordered connected ((time, .strike) :: earlier))
    (before : Remembers inbound connected earlier) (timely : Timely inbound connected earlier) :
    Remembers inbound connected ((time, .strike) :: earlier) ↔
      Timely inbound connected ((time, .strike) :: earlier) := by
  obtain ⟨left, reference, decayed, fewer, bound, fresh, agrees⟩ :=
    @exists_decayed inbound connected earlier time ordered.2 ordered.1
  unfold Remembers Timely
  rw [and_iff_left timely, decayed, run, step, strikeNonTip_eq decayed fewer, strikes, clock]
  simp only [Option.some.injEq, Option.mem_some_iff, forall_eq', fst_decayedStrikes]
  constructor
  · intro bounded
    constructor
    · rintro rfl
      by_contra stale
      have inside : max time (reference + strikeDecayInterval) < time + strikeDecayInterval :=
        max_lt (Nat.lt_add_of_pos_right (by decide)) (by omega)
      have read := bounded _ (le_max_left time (reference + strikeDecayInterval))
      rw [List.countP_cons, if_pos (decide_eq_true inside)] at read
      unfold strikeDecayInterval lowQualityStrikeLimit at read
      omega
    · rintro rfl
      have read := bounded (reference + strikeDecayInterval) (fresh (by decide)).le
      simp only [Nat.add_lt_add_iff_right] at read
      rw [Nat.add_sub_cancel_left, Nat.div_self (by decide)] at read
      unfold lowQualityStrikeLimit at read ⊢
      omega
  · rintro ⟨whenEmpty, whenFull⟩ now late
    have window := before now (ordered.1.trans late)
    rw [agrees now late] at window
    rw [List.countP_cons]
    by_cases recent : now < time + strikeDecayInterval
    · have since : reference + strikeDecayInterval ≤ now →
          (strikes earlier).countP (fun strike => now < strike + strikeDecayInterval) ≤
            (strikes earlier).countP fun strike => reference < strike := by
        intro due
        refine List.countP_mono_left fun strike _ inside => ?_
        simp only [decide_eq_true_eq] at inside ⊢
        omega
      rw [if_pos (decide_eq_true recent)]
      rw [List.countP_cons] at whenFull
      unfold strikeDecayInterval lowQualityStrikeLimit at *
      simp only [decide_eq_true_eq] at whenFull
      split at whenFull <;> omega
    · rw [if_neg (by simpa using recent), add_zero]
      exact window.trans (Nat.sub_le_sub_right (le_min fewer left.le_succ) _)

/-- The strikes of the last interval are in the record at every point of a history exactly if
its strikes are timely; and all strikes, of an outbound peer or since a reset, are forgiven as
many intervals after the latest of them as there were. -/
theorem strikes_decay_iff (ordered : Ordered connected history) :
    (NeverFaster inbound connected history ↔ Timely inbound connected history) ∧
    ∀ latest older now, FromZero inbound history → strikes history = latest :: older →
      clock connected history ≤ now → latest + (older.length + 1) * strikeDecayInterval ≤ now →
      ((run inbound connected history).decayedStrikes now).1 = 0 := by
  constructor
  · induction history with
    | nil => exact iff_of_true (fun now _ => (min_le_right _ _).trans (Nat.zero_le _)) trivial
    | cons head earlier ih =>
      obtain ⟨time, event⟩ := head
      have before := ih ordered.2
      cases event with
      | strike =>
        constructor
        · rintro ⟨here, always⟩
          exact (remembers_strike_iff ordered always.remembers (before.mp always)).mp here
        · intro timely
          have always := before.mpr timely.2
          exact ⟨(remembers_strike_iff ordered always.remembers timely.2).mpr timely, always⟩
      | reset =>
        rw [NeverFaster, Timely, before]
        exact and_iff_right fun now _ => (min_le_right _ _).trans (Nat.zero_le _)
      | read =>
        rw [NeverFaster, Timely, ← before]
        refine and_iff_right_of_imp fun always now late => ?_
        obtain ⟨left, reference, decayed, -, -, -, agrees⟩ :=
          @exists_decayed inbound connected earlier time ordered.2 ordered.1
        have window := always.remembers now (ordered.1.trans late)
        rw [agrees now late] at window
        rw [run, step, decayed, fst_decayedStrikes]
        exact window
  · intro latest older now zero since late forgiven
    obtain ⟨count, last, tracks⟩ := @exists_tracks inbound connected history ordered
    rw [tracks.state, fst_decayedStrikes]
    rcases Nat.eq_zero_or_pos count with rfl | positive
    · exact Nat.zero_sub _
    have outlasts := tracks.outlasts positive zero latest (by rw [since]; rfl)
    rw [since, List.length_cons] at outlasts
    unfold strikeDecayInterval at *
    omega

/-- Three strikes of an outbound peer, the first at the time of its connection. -/
theorem strikes_decay_three :
    let history : History := [(2, .strike), (1, .strike), (0, .strike)]
    NeverFaster false 0 history ∧
      ((run false 0 history).decayedStrikes (2 + 3 * strikeDecayInterval)).1 = 0 := by
  intro history
  have ordered : Ordered 0 history := by simp [history, Ordered, clock]
  have timely : Timely false 0 history := by
    simp only [history, Timely, run, step]
    decide
  obtain ⟨exactly, forgiven⟩ := @strikes_decay_iff false 0 history ordered
  exact ⟨exactly.mpr timely, forgiven 2 [1, 0] _ (.inl rfl) rfl (by decide) (by decide)⟩

/-- The first of five strikes at one instant falls on the reference of an hour ago and is
forgiven by the second, so that the peer passes for one of high quality. -/
theorem five_strikes_of_high_quality :
    let history := List.replicate 5 (3600000000000, StrikeEvent.strike)
    Ordered 0 history ∧ ¬ NeverFaster false 0 history ∧
      (run false 0 history).isPeerHighQuality 3600000000000 = true := by
  refine ⟨by simp [List.replicate, Ordered, clock], ?_, by decide⟩
  intro always
  exact absurd (always.remembers 3600000000000 le_rfl) (by decide)

end PeerSyncState

end ModelOS.NetSync
