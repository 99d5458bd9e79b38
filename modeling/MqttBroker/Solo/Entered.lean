import MqttBroker.Solo.NoStepBack

/-!
# What was put in flight

An entry is put in flight once. From then on its packet is sent by the goroutine that put it there
and by the ticks that find it there, and by nobody else.
-/

namespace MqttBroker.Solo

variable {cfg : Config} {f f' : Flags} {x x' : Outbox}

/-- The entry is in flight, or was taken out. -/
def Outbox.Entered (x : Outbox) (e : EntryRef) : Prop := e ∈ x.inflightingList ∨ x.Removed e

/-- The entry whose packet an operation is about to send. -/
def MsgOp.sendsFor : MsgOp → Option EntryRef
  | sendEntry c => some c.entry
  | resend e _ => some e
  | channelSend c _ | pushSend c _ => c.map Caller.entry
  | _ => none

def Op.sendsFor : Op → Option EntryRef
  | .msg o => o.sendsFor
  | .stop _ => none

/-- The packet that it sends, if nothing comes between. -/
def MsgOp.sending (x : Outbox) : MsgOp → Option PacketRef
  | sendEntry c => some (x.entry c.entry).p
  | resend e _ => some (x.entry e).p
  | channelSend _ r | pushSend _ r => some r
  | _ => none

/-- An entry's packet is sent by the one that put it in flight, or by a tick that found it there. -/
theorem MsgOp.Ran.sendsFor {o o' : MsgOp} {new : List MsgOp} (h : Ran cfg f x o new x')
    (hmem : o' ∈ new) {e : EntryRef} (he : o'.sendsFor = some e) :
    (o.sendsFor = some e ∧ ∃ r, o'.packet = some r ∧ o.sending x = some r) ∨
    ((∃ now, o = .collect now) ∧ e ∈ x.inflightingList ∧ o'.packet = none) ∨
    (∃ c, o = .pushInflight c ∧ c.entry = e) ∨
    (∃ c, o = .insert2Inflight c ∧ c.entry = e ∧ (x.packet (x.entry e).p).kind ∉
      [PacketType.publish, PacketType.pubrec, PacketType.pubrel]) ∨
    o = .send e := by
  cases h.follows hmem with
  | notInserted c =>
    obtain rfl : c.entry = e := Option.some.inj he
    cases h with
    | refused c _ => exact nomatch mem_rest hmem
    | inserted c _ => exact absurd (List.mem_singleton.mp hmem) (by simp)
    | notInserted hkind => exact .inr (.inr (.inr (.inl ⟨c, rfl, rfl, hkind⟩)))
  | sendPushed e' =>
    exact .inr (.inr (.inl ⟨_, rfl, Option.some.inj he⟩))
  | afterPush c => exact .inr (.inr (.inl ⟨c, rfl, Option.some.inj he⟩))
  | sendEntry c => exact .inl ⟨he, _, rfl, rfl⟩
  | pushSend c r _ => exact .inl ⟨he, r, rfl, rfl⟩
  | sendAtOnce e' =>
    obtain rfl : e' = e := Option.some.inj he
    exact .inr (.inr (.inr (.inr rfl)))
  | resend hover =>
    obtain rfl := Option.some.inj he
    exact .inr (.inl ⟨⟨_, rfl⟩, List.mem_of_mem_filter hover, rfl⟩)
  | sendAgain e' now =>
    obtain rfl : e' = e := Option.some.inj he
    exact .inl ⟨rfl, _, rfl, rfl⟩
  | _ => exact absurd he (by simp [MsgOp.sendsFor])

theorem entry_of_sends {o : MsgOp} {e : EntryRef} (h : o.sendsFor = some e) :
    o.entry = some e := by
  cases o with
  | sendEntry c | resend e' _ | channelSend c _ | pushSend c _ => exact h
  | _ => exact absurd h (by simp [MsgOp.sendsFor])

/-- Operations that do not come after another one send nothing. -/
theorem MsgOp.Opens.sends_packet {o : MsgOp} (h : o.Opens x) :
    o.sendsFor = none ∧ o.packet = none := by
  cases h with
  | starts hstarts =>
    cases hstarts with
    | _ => exact ⟨rfl, rfl⟩
  | _ => exact ⟨rfl, rfl⟩

section Step

variable {s s' : Solo} {t : Solo.Turn} {old new : List Op} {e : EntryRef}

theorem Typed.lt_of_entered (hs : Typed s) (he : s.outbox.Entered e) :
    e < s.outbox.entries.next := by
  rcases he with hin | ⟨ev, hev, hremoves⟩
  · exact hs.lists.inflight e hin
  · cases ev with
    | removed e' r id =>
      exact hs.lists.log _ hev e (congrArg some (of_decide_eq_true hremoves))
    | _ => exact absurd hremoves Bool.false_ne_true

/-- What was put in flight is not put in flight again. -/
theorem Once.of_entered (ho : Once s) (he : s.outbox.Entered e) :
    s.goroutines.ops.countP (Op.enters e) = 0 ∧ s.outbox.peddingMsgList.count e = 0 := by
  have hplace := ho e
  rw [Outbox.uses] at hplace
  have hpos : 0 < s.outbox.inflightingList.count e + s.outbox.log.countP (Event.removes e) := by
    rcases he with hin | hremoved
    · exact Nat.add_pos_left (List.count_pos_iff.mpr hin) _
    · exact Nat.add_pos_right _ (List.countP_pos_iff.mpr hremoved)
  omega

theorem Outbox.Entered.not_enters (he : s.outbox.Entered e) (ho : Once s) {o : Op}
    (hmem : o ∈ s.goroutines.ops) : o.enters e = false :=
  Bool.eq_false_of_not_eq_true (List.countP_eq_zero.mp (ho.of_entered he).1 o hmem)

theorem Exchange.entered (h : Exchange cfg s t old new x' f') (he : s.outbox.Entered e) :
    x'.Entered e := by
  rcases he with hin | ⟨ev, hev, hremoves⟩
  · rcases h.inflight with hsame | ⟨c, -, -, -, hpush⟩ | ⟨r, id, e', -, hfound, rfl⟩
    · exact .inl (hsame ▸ hin)
    · refine .inl (List.count_pos_iff.mp ?_)
      have hpos := List.count_pos_iff.mpr hin
      rw [hpush, count_push]
      omega
    · by_cases heq : e' = e
      · exact .inr ⟨_, List.mem_cons_self, decide_eq_true heq⟩
      · -- another entry is taken out
        refine .inl (List.count_pos_iff.mp ?_)
        have hpos := List.count_pos_iff.mpr hin
        have hcount := count_removeInflight (e := e) hfound
        rw [if_neg heq] at hcount
        show 0 < (s.outbox.removeInflight id).inflightingList.count e
        omega
  · exact .inr ⟨ev, h.log_sublist.subset hev, hremoves⟩

theorem entered_step (h : Solo.step cfg t s = some s') (he : s.outbox.Entered e) :
    s'.outbox.Entered e := by
  obtain ⟨old, new, hx, -⟩ := exchange_of_step h
  exact hx.entered he

/-- What is in flight after a turn was in flight before, or comes from the operation that puts it
there. -/
theorem Exchange.inflight_of_mem (h : Exchange cfg s t old new x' f')
    (hin : e ∈ x'.inflightingList) :
    e ∈ s.outbox.inflightingList ∨ ∃ c, .msg (.pushInflight c) ∈ old ∧ c.entry = e := by
  rcases h.inflight with hsame | ⟨c, -, rfl, -, hpush⟩ | ⟨r, id, e', -, -, rfl⟩
  · rw [hsame] at hin
    exact .inl hin
  · rw [hpush] at hin
    rcases List.mem_append.mp hin with hin | hin
    · exact .inl hin
    · exact .inr ⟨c, List.mem_cons_self, (List.mem_singleton.mp hin).symm⟩
  · exact .inl (List.mem_of_mem_eraseP hin)

/-- So it is for what was put in flight at any time. -/
theorem Exchange.entered_or (h : Exchange cfg s t old new x' f') (he : x'.Entered e) :
    s.outbox.Entered e ∨ ∃ c, .msg (.pushInflight c) ∈ old ∧ c.entry = e := by
  rcases he with hin | hremoved
  · exact (h.inflight_of_mem hin).imp .inl id
  · refine .inl ?_
    refine h.log_induct (P := fun l => (∃ ev ∈ l, ev.removes e = true) → s.outbox.Entered e)
      .inr (fun ev l hev hl => ?_) hremoved
    rintro ⟨ev', hmem, hremoves⟩
    rcases List.mem_cons.mp hmem with rfl | hmem
    · -- what a turn takes out was in flight
      cases hev with
      | removed _ hfound =>
        obtain rfl := of_decide_eq_true hremoves
        exact .inl (List.mem_of_find?_eq_some hfound)
      | _ => exact absurd hremoves Bool.false_ne_true
    · exact hl ⟨ev', hmem, hremoves⟩

end Step
end MqttBroker.Solo
