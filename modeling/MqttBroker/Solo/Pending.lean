import MqttBroker.Solo.Typed

/-!
# The pending list

`Publish` sends a byte into `peddingChan`, which has room for `MaxSizeOfPublishMsg`, and then
pushes its entry to `peddingMsgList`; a refill takes a byte, if there is one, and then pops. A
refill that comes between the two steps of `Publish` takes the byte and may pop nothing: from
then on the channel counts one entry less than there are. The list keeps to its bound as long
as every call that finds room in the channel would find it in the list too, counting the
entries that are about to be pushed.
-/

namespace MqttBroker.Solo

variable {cfg : Config} {f : Flags} {x x' : Outbox}

/-- A call of `Publish` between its send into `peddingChan` and its push. -/
def MsgOp.pushes : MsgOp → Bool
  | pushPedding _ => true
  | _ => false

def Op.pushes : Op → Bool
  | .msg o => o.pushes
  | .stop _ => false

/-- The entries of the pending list and those that are about to be pushed. -/
def pending (s : Solo) : ℕ :=
  s.outbox.peddingMsgList.length + s.goroutines.ops.countP Op.pushes

/-- The send of `Publish` into `peddingChan`. -/
def MsgOp.sendsPedding : MsgOp → Bool
  | sendPeddingChan _ => true
  | _ => false

/-- A call that finds room in `peddingChan` finds the list, with the entries that are about to
be pushed, shorter than its bound. -/
def RoomInList (cfg : Config) (s : Solo) (t : Solo.Turn) : Prop :=
  ∀ o ∈ t.msgOp s, o.sendsPedding = true → s.flags.peddingClosed = false →
    s.outbox.peddingLen < cfg.maxSizeOfPublishMsg → pending s < cfg.maxSizeOfPublishMsg

instance (s : Solo) (t : Solo.Turn) : Decidable (RoomInList cfg s t) :=
  inferInstanceAs (Decidable (∀ o ∈ _, _))

/-! ## One turn -/

/-- An entry is about to be pushed after a send into the channel, which counts it. -/
theorem MsgOp.Ran.of_pushPedding {o : MsgOp} {new : List MsgOp} (h : Ran cfg f x o new x')
    {e : EntryRef} (hmem : .pushPedding e ∈ new) : o = .sendPeddingChan e ∧
      new = [.pushPedding e] ∧ x' = { x with peddingLen := x.peddingLen + 1 } := by
  cases h.follows hmem with
  | pushPedding e =>
    cases h with
    | peddingClosed _ _ => exact absurd hmem (by simp)
    | peddingRoom _ => exact ⟨rfl, rfl, rfl⟩

/-- Operations begin a push in no other way. -/
theorem Exchange.of_pushPedding {s : Solo} {t : Solo.Turn} {old new : List Op} {f' : Flags}
    (h : Exchange cfg s t old new x' f') {e : EntryRef} (hmem : .msg (.pushPedding e) ∈ new) :
    .sendPeddingChan e ∈ t.msgOp s ∧ new = [.msg (.pushPedding e)] ∧
      x' = { s.outbox with peddingLen := s.outbox.peddingLen + 1 } := by
  rcases h.origin hmem with ⟨o, l, hran, ho, hop, -, rfl⟩ | hopens
  · obtain ⟨rfl, rfl, rfl⟩ := hran.of_pushPedding ho
    exact ⟨hop, rfl, rfl⟩
  · cases hopens with
    | starts hstarts => cases hstarts

/-- The send found room in the channel. -/
theorem room_of_step {s s' : Solo} {t : Solo.Turn} {e : EntryRef}
    (ht : .sendPeddingChan e ∈ t.msgOp s) (h : Solo.step cfg t s = some s')
    (hlen : s'.outbox.peddingLen = s.outbox.peddingLen + 1) :
    s.flags.peddingClosed = false ∧ s.outbox.peddingLen < cfg.maxSizeOfPublishMsg := by
  obtain ⟨i, rfl, hnext⟩ := nextOp_of_msgOp ht
  obtain ⟨new, hrun, -⟩ := run_of_nextOp hnext h
  rw [MsgOp.run] at hrun
  by_cases hclosed : s.flags.peddingClosed = true
  · rw [if_pos hclosed] at hrun
    obtain ⟨-, hx⟩ := Prod.mk.inj (Option.some.inj hrun)
    rw [← hx] at hlen
    exact absurd hlen (Nat.ne_of_lt (Nat.lt_succ_self _))
  · rw [if_neg hclosed] at hrun
    by_cases hroom : s.outbox.peddingLen < cfg.maxSizeOfPublishMsg
    · exact ⟨Bool.eq_false_of_not_eq_true hclosed, hroom⟩
    · rw [if_neg hroom] at hrun
      exact absurd hrun (by simp)

theorem pending_step {s s' : Solo} {t : Solo.Turn} (hok : RoomInList cfg s t)
    (h : Solo.step cfg t s = some s') (hpending : pending s ≤ cfg.maxSizeOfPublishMsg) :
    pending s' ≤ cfg.maxSizeOfPublishMsg := by
  obtain ⟨old, new, hx, hex⟩ := exchange_of_step h
  have hcount := hex.countP_eq Op.pushes
  by_cases hnew : new.countP Op.pushes = 0
  · -- no push is added, and one that is done adds its own entry
    have hlist : s'.outbox.peddingMsgList.length ≤
        s.outbox.peddingMsgList.length + old.countP Op.pushes := by
      obtain hsame | ⟨e, -, rfl, -, hpush⟩ | ⟨e, -, -, hpop⟩ := hx.pedding
      · rw [hsame]
        exact Nat.le_add_right _ _
      · rw [hpush]
        exact le_of_eq List.length_append
      · rw [hpop, List.length_cons]
        omega
    unfold pending at *
    omega
  · -- a call has sent into the channel
    obtain ⟨o, hmem, ho⟩ := List.countP_pos_iff.mp (Nat.pos_of_ne_zero hnew)
    obtain ⟨e, rfl⟩ : ∃ e, o = .msg (.pushPedding e) := by
      cases o with
      | stop o => exact absurd ho (by simp [Op.pushes])
      | msg o =>
        cases o with
        | pushPedding e => exact ⟨e, rfl⟩
        | _ => exact absurd ho (by simp [Op.pushes, MsgOp.pushes])
    obtain ⟨hop, rfl, hout⟩ := hx.of_pushPedding hmem
    obtain ⟨hclosed, hroom⟩ := room_of_step hop h (congrArg Outbox.peddingLen hout)
    have hlt := hok _ hop rfl hclosed hroom
    have hlist : s'.outbox.peddingMsgList = s.outbox.peddingMsgList := by
      rw [hout]
    have hone : [Op.msg (.pushPedding e)].countP Op.pushes = 1 := rfl
    unfold pending at *
    rw [hlist]
    omega

/-! ## Runs -/

/-- In a run in which every call that finds room in `peddingChan` finds it in the list too,
`peddingMsgList` never has more than `MaxSizeOfPublishMsg` entries. -/
theorem pending_bounded {s : Solo} (h : (Solo.system cfg).Reach (RoomInList cfg) s) :
    s.outbox.peddingMsgList.length ≤ cfg.maxSizeOfPublishMsg := by
  have hpending : pending s ≤ cfg.maxSizeOfPublishMsg := by
    refine h.invariant (I := fun s => pending s ≤ cfg.maxSizeOfPublishMsg) ?_ ?_
    · intro s hs
      obtain ⟨isServer, now, rfl⟩ := hs
      exact Nat.zero_le _
    · exact fun s t s' hI hok hs => pending_step hok hs hI
  exact (Nat.le_add_right _ _).trans hpending

/-- A configuration with room for two pending messages. -/
def twoPending : Config := { maxSizeOfPublishMsg := 2 }

/-- After a CONNECT, whose CONNACK is not written, one call of `Publish` fills the send list. -/
def fullSendList : List Solo.Turn :=
  Solo.connecting ++ [.newPacket (Solo.outboundPublish 1), .publish 2] ++ Solo.runs 4 13

/-- Two calls find the send list full and wait. -/
theorem pending_bounded_two : ∃ s, (Solo.system twoPending).Reach (RoomInList twoPending) s ∧
    s.outbox.peddingMsgList.length = 2 ∧ s.outbox.peddingMsgList.length ≤ 2 := by
  let turns := fullSendList ++ [.publish 2] ++ Solo.runs 5 9 ++ [.publish 2] ++ Solo.runs 6 9
  have hok : (Solo.system twoPending).checkAll (fun s t => decide (RoomInList twoPending s t))
      turns (Solo.initial true 0) = true := by
    decide
  have hend : ((Solo.system twoPending).exec turns (Solo.initial true 0)).any
      (fun s => s.outbox.peddingMsgList.length = 2) = true := by
    decide
  obtain ⟨s, hs, hc⟩ := StepSystem.exists_reach_of_any (Solo.initial_init twoPending true 0)
    (StepSystem.along_of_check (fun _ _ h => of_decide_eq_true h) hok) hend
  exact ⟨s, hs, of_decide_eq_true hc, pending_bounded hs⟩

/-- A second call has sent its byte and not pushed its entry when the PUBACK of the first comes:
the refill takes the byte and pops nothing. Then the list gets the entry of that call and, as
the channel counts none, those of two more. -/
def overtakenCall : List Solo.Turn :=
  fullSendList ++ [.newPacket (Solo.outboundPublish 1), .publish 3] ++ Solo.runs 5 7 ++
    [.recvPacket (Solo.inboundPuback 1) false] ++ Solo.runs 0 7 ++ Solo.runs 5 2 ++
    [.newPacket (Solo.outboundPublish 1), .publish 5] ++ Solo.runs 6 9 ++
    [.newPacket (Solo.outboundPublish 1), .publish 6] ++ Solo.runs 7 9

theorem pending_exceeded : ¬ ∀ s, (Solo.system twoPending).Reachable s →
    s.outbox.peddingMsgList.length ≤ twoPending.maxSizeOfPublishMsg := by
  have hend : ((Solo.system twoPending).exec overtakenCall (Solo.initial true 0)).any
      (fun s => s.outbox.peddingMsgList.length = 3) = true := by
    decide
  obtain ⟨s, hs, hc⟩ := StepSystem.exists_reachable_of_any (Solo.initial_init twoPending true 0)
    hend
  intro hall
  have := hall s hs
  rw [of_decide_eq_true hc] at this
  exact absurd this (by decide)

end MqttBroker.Solo
