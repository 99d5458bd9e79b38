import MqttBroker.Packets.Received
import MqttBroker.Session.SendLoop

/-!
# From `Send` to the peer

`writeMsg` writes the packet that `sendRun` has taken from the send list, with one call of the
connection's `Write`. The list holds references: what is written is the packet as it is at that
moment. The call may fail after a part of the bytes, and the connection may lose a part of what it
has accepted. The peer reads what arrives with `recvRun`.
-/

namespace MqttBroker
namespace SendLoop
namespace Transport

variable {P : Type}

/-- A channel, the packets that `writeMsg` has written or begun to write, as they were then, and the
bytes that the connection has accepted. -/
structure Link (P : Type) where
  channel : Channel P
  transmitted : List (P × ControlPacket)
  bytes : GoString

/-- A turn of the channel. If it is a write, then `packets` are the packets at this moment, and
`accepted` is how many bytes a write that fails has written. -/
structure Action (P : Type) where
  turn : Turn P
  packets : P → ControlPacket
  accepted : ℕ

/-- A turn that is a write ends the process if `Write` panics. -/
def Link.step (a : Action P) (s : Link P) : Option (Link P) :=
  (s.channel.step a.turn).bind fun channel =>
    match a.turn, s.channel.sendRun with
    | .loop choice, .writing msg =>
      match (a.packets msg).write with
      | .error _ => none
      | .ok (bytes, p) =>
        some
          { channel
            transmitted := s.transmitted ++ [(msg, p)]
            bytes := s.bytes ++ if choice = .failed then bytes.take a.accepted else bytes }
    | _, _ => some { s with channel }

def system (P : Type) : StepSystem (Link P) (Action P) where
  init s := s = ⟨newChannel, [], []⟩
  step := Link.step

/-! ## What the loop does to the connection -/

/-- The packet that is being written. -/
def beingWritten : SendRun P → Option P
  | .writing msg => some msg
  | _ => none

/-- The loop has ended: it writes no more. -/
def Over : SendRun P → Prop
  | .exiting | .closing | .stopping | .exited => True
  | _ => False

/-- A turn of the loop that is not a write passes at most one packet to `writeMsg`. -/
theorem stepLoop_writes {s s' : Channel P} {choice : Choice} (h : s.stepLoop choice = some s')
    (hno : beingWritten s.sendRun = none) :
    s'.written = s.written ++ (beingWritten s'.sendRun).toList ∧
      (Over s.sendRun → Over s'.sendRun) := by
  -- the turns that pass nothing
  have hmove : ∀ {t : Channel P}, some t = some s' → t.written = s.written →
      beingWritten t.sendRun = none → (Over s.sendRun → Over t.sendRun) →
      s'.written = s.written ++ (beingWritten s'.sendRun).toList ∧
        (Over s.sendRun → Over s'.sendRun) := by
    intro t heq hwritten hnone hover
    rw [← Option.some.inj heq, hwritten, hnone]
    exact ⟨(List.append_nil _).symm, hover⟩
  have hrunning : ∀ {r : SendRun P}, s.sendRun = r → ¬ Over r →
      ∀ r' : SendRun P, Over s.sendRun → Over r' := by
    intro r hrun hnot r' hover
    rw [hrun] at hover
    exact absurd hover hnot
  unfold Channel.stepLoop at h
  split at h
  · next hrun => exact hmove h rfl rfl (hrunning hrun id _)
  · next hrun => exact hmove h rfl rfl (hrunning hrun id _)
  · next hrun =>
    -- `outer`
    refine hmove h rfl ?_ (hrunning hrun id _)
    cases s.running <;> rfl
  · next hrun =>
    -- `select` with a value from the list
    obtain ⟨x, _, heq⟩ := Option.map_eq_some_iff.mp h
    exact hmove (congrArg some heq) rfl rfl (hrunning hrun id _)
  · next hrun =>
    -- `select` with the interrupt
    by_cases hinterrupted : s.interrupted = true
    · rw [if_pos hinterrupted] at h
      exact hmove h rfl rfl (hrunning hrun id _)
    · rw [if_neg hinterrupted] at h
      exact absurd h (by simp)
  · next hrun =>
    -- `inner`
    refine hmove h rfl ?_ (hrunning hrun id _)
    cases s.running <;> rfl
  · next hrun => exact hmove h rfl rfl (hrunning hrun id _)
  · next msg hrun =>
    -- the packet that was popped
    obtain rfl := Option.some.inj h
    exact ⟨rfl, hrunning hrun id _⟩
  · next g _ _ hrun =>
    obtain ⟨next, _, heq⟩ := Option.map_eq_some_iff.mp h
    exact hmove (congrArg some heq) rfl rfl (hrunning hrun id _)
  · next hrun => exact absurd hno (by rw [hrun]; exact Option.some_ne_none _)
  · next hrun => exact absurd hno (by rw [hrun]; exact Option.some_ne_none _)
  · next hrun => exact hmove h rfl rfl fun _ => trivial
  · next hrun => exact hmove h rfl rfl fun _ => trivial
  · next hrun => exact hmove h rfl rfl fun _ => trivial
  · exact absurd h (by simp)

/-- A write lets the loop go on, or it fails and ends the loop. -/
theorem stepLoop_of_writing {s s' : Channel P} {choice : Choice} {msg : P}
    (h : s.stepLoop choice = some s') (hrun : s.sendRun = .writing msg) :
    (choice ≠ .failed ∧ s' = { s with sendRun := .inner }) ∨
      (choice = .failed ∧ s' = { s with sendRun := .exiting }) := by
  unfold Channel.stepLoop at h
  rw [hrun] at h
  cases choice with
  | plain => exact Or.inl ⟨by decide, (Option.some.inj h).symm⟩
  | interrupted => exact nomatch h
  | failed => exact Or.inr ⟨rfl, (Option.some.inj h).symm⟩

/-- The callers do not write. -/
theorem step_of_caller {s s' : Channel P} {t : Turn P} (h : s.step t = some s')
    (ht : ∀ choice, t ≠ .loop choice) : s'.sendRun = s.sendRun ∧ s'.written = s.written := by
  cases t with
  | start c =>
    rw [Channel.step] at h
    by_cases hc : c.begins = true
    · rw [if_pos hc] at h
      obtain rfl := Option.some.inj h
      exact ⟨rfl, rfl⟩
    · rw [if_neg hc] at h
      exact absurd h (by simp)
  | caller i =>
    rw [Channel.step] at h
    cases hi : s.callers[i]? with
    | none =>
      rw [hi] at h
      exact absurd h (by simp)
    | some c =>
      rw [hi] at h
      obtain ⟨next, hnext, rfl⟩ := Option.map_eq_some_iff.mp h
      obtain ⟨g, x, g', _, _, _, hs⟩ | ⟨_, hfifo, hrun⟩ := stepCaller_cases hnext
      · show next.1.sendRun = s.sendRun ∧ next.1.written = s.written
        rw [hs]
        exact ⟨rfl, rfl⟩
      · exact ⟨hrun, congrArg Fifo.left hfifo⟩
  | loop choice => exact absurd rfl (ht choice)

/-! ## The bytes on the connection -/

/-- The packets as they were written. -/
def Link.packets (s : Link P) : List ControlPacket := s.transmitted.map Prod.snd

/-- The bytes are those of the packets in the order of the writes. A write that has failed was the
last one. -/
structure Carries (s : Link P) : Prop where
  written : s.channel.written =
    s.transmitted.map Prod.fst ++ (beingWritten s.channel.sendRun).toList
  bytes : s.bytes = s.packets.flatMap ControlPacket.wire ∨
    (Over s.channel.sendRun ∧ ∃ n, s.bytes = (s.packets.flatMap ControlPacket.wire).take n)

theorem carries_init : Carries (⟨newChannel, [], []⟩ : Link P) := ⟨rfl, Or.inl rfl⟩

/-- A write appends the packet and its bytes, or a part of them. -/
theorem Carries.write {s : Link P} (h : Carries s) {channel : Channel P} {choice : Choice} {msg : P}
    {p : ControlPacket} (hrun : s.channel.sendRun = .writing msg)
    (hstep : s.channel.stepLoop choice = some channel) (n : ℕ) :
    Carries
      { channel
        transmitted := s.transmitted ++ [(msg, p)]
        bytes := s.bytes ++ if choice = .failed then p.wire.take n else p.wire } := by
  have hbytes : s.bytes = s.packets.flatMap ControlPacket.wire := by
    cases h.bytes with
    | inl hbytes => exact hbytes
    | inr hover =>
      rw [hrun] at hover
      exact hover.1.elim
  have hpackets : (s.transmitted ++ [(msg, p)]).map Prod.snd = s.packets ++ [p] := by
    rw [List.map_append]
    rfl
  have hwire : (s.packets ++ [p]).flatMap ControlPacket.wire =
      s.packets.flatMap ControlPacket.wire ++ p.wire := by
    rw [List.flatMap_append, List.flatMap_singleton]
  have hwritten := h.written
  rw [hrun] at hwritten
  obtain ⟨hplain, rfl⟩ | ⟨rfl, rfl⟩ := stepLoop_of_writing hstep hrun
  · refine ⟨?_, Or.inl ?_⟩
    · show s.channel.written = _ ++ []
      rw [hwritten, List.map_append, List.append_nil]
      rfl
    · show _ = ((s.transmitted ++ [(msg, p)]).map Prod.snd).flatMap _
      rw [if_neg hplain, hpackets, hwire, hbytes]
  · refine ⟨?_, Or.inr ⟨trivial, (s.packets.flatMap ControlPacket.wire).length + n, ?_⟩⟩
    · show s.channel.written = _ ++ []
      rw [hwritten, List.map_append, List.append_nil]
      rfl
    · show _ = (((s.transmitted ++ [(msg, p)]).map Prod.snd).flatMap _).take _
      rw [if_pos rfl, hpackets, hwire, hbytes, List.take_length_add_append]

theorem Carries.step {s s' : Link P} (h : Carries s) {a : Action P} (hs : s.step a = some s') :
    Carries s' := by
  obtain ⟨channel, hchannel, hs⟩ := Option.bind_eq_some_iff.mp hs
  split at hs
  · next choice msg hturn hrun =>
    rw [hturn] at hchannel
    cases hwrite : (a.packets msg).write with
    | error e =>
      rw [hwrite] at hs
      exact absurd hs (by simp)
    | ok result =>
      rw [hwrite] at hs
      obtain rfl := Option.some.inj hs
      have hwire := ControlPacket.wire_of_write hwrite
      rw [hwire]
      exact h.write hrun hchannel a.accepted
  · next hother =>
    obtain rfl := Option.some.inj hs
    by_cases hloop : ∃ choice, a.turn = .loop choice
    · obtain ⟨choice, hturn⟩ := hloop
      rw [hturn] at hchannel
      have hno : beingWritten s.channel.sendRun = none := by
        cases hrun : s.channel.sendRun with
        | writing msg => exact absurd hrun (hother choice msg hturn)
        | _ => rfl
      obtain ⟨hwritten, hover⟩ := stepLoop_writes hchannel hno
      refine ⟨?_, ?_⟩
      · show channel.written = _
        rw [hwritten, h.written, hno, Option.toList_none, List.append_nil]
      · cases h.bytes with
        | inl hbytes => exact Or.inl hbytes
        | inr hcut => exact Or.inr ⟨hover hcut.1, hcut.2⟩
    · obtain ⟨hrun, hwritten⟩ := step_of_caller hchannel fun choice hturn => hloop ⟨choice, hturn⟩
      refine ⟨?_, ?_⟩
      · show channel.written = _ ++ (beingWritten channel.sendRun).toList
        rw [hwritten, hrun, h.written]
      · show _ ∨ (Over channel.sendRun ∧ _)
        rw [hrun]
        exact h.bytes

theorem carries_of_reachable {s : Link P} (h : (system P).Reachable s) : Carries s := by
  refine StepSystem.Reach.invariant (I := Carries) ?_ ?_ h
  · intro s hs
    rw [hs]
    exact carries_init
  · exact fun s a s' hI _ hs => hI.step hs

/-! ## What the peer receives -/

/-- The references that were written are the first ones that `Send` has appended, in this order. -/
theorem transmitted_in_order {s : Link P} (h : (system P).Reachable s) :
    s.transmitted.map Prod.fst <+: s.channel.appended := by
  obtain ⟨hconserves, _⟩ : s.channel.fifo.Conserves ∧ Roles s.channel := by
    refine StepSystem.Reach.invariant
      (I := fun s : Link P => s.channel.fifo.Conserves ∧ Roles s.channel) ?_ ?_ h
    · intro s hs
      rw [hs]
      exact ⟨rfl, roles_newChannel⟩
    · intro s a s' hI _ hs
      obtain ⟨channel, hchannel, hs⟩ := Option.bind_eq_some_iff.mp hs
      obtain ⟨hroles, hstep⟩ := step_simulates a.turn hI.2 hchannel
      have hsame : s'.channel = channel := by
        split at hs
        · split at hs
          · exact absurd hs (by simp)
          · rw [← Option.some.inj hs]
        · rw [← Option.some.inj hs]
      rw [hsame]
      exact ⟨hI.1.step hstep, hroles⟩
  have hwritten := (carries_of_reachable h).written
  have hprefix : s.channel.written <+: s.channel.appended := hconserves.left_prefix
  rw [hwritten] at hprefix
  exact (List.prefix_append _ _).trans hprefix

/-- The packets of a link as the peer would read them. -/
def Link.plain (s : Link P) : List ControlPacket := s.packets.map ControlPacket.plain

theorem flatMap_wire_plain (s : Link P) :
    s.plain.flatMap ControlPacket.wire = s.packets.flatMap ControlPacket.wire := by
  rw [Link.plain, List.flatMap_map]
  exact congrArg (s.packets.flatMap ·) (funext ControlPacket.wire_plain)

/-- In every run, with any goroutines that call `Send` and `Close`, any packets at the moments of
the writes, a write that fails after any number of bytes, a connection that loses any part of the
end, and any pieces in which the peer reads: if the packets are encodable, then the peer receives
the first of them, in the order in which `Send` has appended them, and after them one at most that
was not sent, which is no PUBLISH. -/
theorem peer_receives {s : Link P} (h : (system P).Reachable s)
    (hencodable : ∀ p ∈ s.plain, p.Encodable) {ρ : Type} {R : IoReader ρ} {f : ρ → ByteStream}
    (hshows : R.Shows ByteStream.reader f) {r : ρ} {n : ℕ} {err : GoError}
    (hr : f r = ⟨s.bytes.take n, err⟩) :
    s.transmitted.map Prod.fst <+: s.channel.appended ∧
      ∃ k, (recvRun hshows r).1 = s.plain.take k ∨
        ∃ p, s.plain[k]? = some p ∧ p.kind ≠ PacketType.publish ∧
          (recvRun hshows r).1 = s.plain.take k ++ [p.phantom] := by
  refine ⟨transmitted_in_order h, ?_⟩
  have hbytes : ∃ m, s.bytes.take n = (s.plain.flatMap ControlPacket.wire).take m := by
    rw [flatMap_wire_plain]
    cases (carries_of_reachable h).bytes with
    | inl hbytes => exact ⟨n, by rw [hbytes]⟩
    | inr hcut =>
      obtain ⟨_, m, hbytes⟩ := hcut
      exact ⟨min n m, by rw [hbytes, List.take_take]⟩
  obtain ⟨m, hm⟩ := hbytes
  rw [hm] at hr
  have hreceived : (recvRun hshows r).1 = receivedOf s.plain m := by
    rw [← received_take hencodable m err, ← hr]
    exact (congrArg Prod.fst (recvRun_shows hshows r)).symm
  rw [hreceived]
  exact receivedOf_eq_take s.plain m

/-- `sendRun` writes the first of two packets that were sent, a PINGREQ, and the peer reads it in
two pieces. -/
theorem peer_receives_pingreq : ∃ s : Link ℕ, (system ℕ).Reachable s ∧
    s.plain = [.pingreq newPingreq] ∧ s.channel.appended = [7, 8] ∧
      s.transmitted.map Prod.fst <+: s.channel.appended ∧
      ∃ k, (recvRun conn_shows_stream ⟨[[0xC0], [0]], errEof⟩).1 = s.plain.take k ∨
        ∃ p, s.plain[k]? = some p ∧ p.kind ≠ PacketType.publish ∧
          (recvRun conn_shows_stream ⟨[[0xC0], [0]], errEof⟩).1 =
            s.plain.take k ++ [p.phantom] := by
  have hpackets : ∃ s : Link ℕ,
      (system ℕ).exec (twoSent.map fun t => ⟨t, fun _ => .pingreq newPingreq, 0⟩)
        ⟨newChannel, [], []⟩ = some s ∧
      s.channel.sendRun = .writing 7 ∧ s.channel.appended = [7, 8] ∧ s.transmitted = [] ∧
        s.bytes = [] :=
    ⟨_, rfl, rfl, rfl, rfl, rfl⟩
  obtain ⟨s, hexec, hrun, happended, htransmitted, hbytes⟩ := hpackets
  have hwrite : (ControlPacket.pingreq newPingreq).write =
      .ok ([0xC0, 0], .pingreq newPingreq) := by
    show Except.ok ((ControlPacket.pingreq newPingreq).wire, _) = _
    rw [wire_pingreq]
    rfl
  have hloop : s.channel.step (.loop .plain) = some { s.channel with sendRun := .inner } := by
    show s.channel.stepLoop .plain = _
    unfold Channel.stepLoop
    rw [hrun]
  have hstep : (system ℕ).step ⟨.loop .plain, fun _ => .pingreq newPingreq, 0⟩ s =
      some ⟨{ s.channel with sendRun := .inner }, [(7, .pingreq newPingreq)], [0xC0, 0]⟩ := by
    show Link.step _ s = _
    rw [Link.step, hloop, Option.bind_some, hrun]
    dsimp only
    rw [hwrite, htransmitted, hbytes]
    rfl
  have hreachable := (StepSystem.reachable_of_exec rfl hexec).step trivial hstep
  have hplain : ∀ p ∈ Link.plain
      ⟨{ s.channel with sendRun := .inner }, [(7, .pingreq newPingreq)], [0xC0, 0]⟩,
      p.Encodable := by
    intro p hp
    rw [List.mem_singleton.mp hp]
    exact encodable_pingreq
  have hstream : Conn.stream ⟨[[0xC0], [0]], errEof⟩ =
      ⟨([0xC0, 0] : GoString).take 2, errEof⟩ := rfl
  exact ⟨_, hreachable, rfl, happended,
    peer_receives hreachable hplain conn_shows_stream hstream⟩

end Transport
end SendLoop
end MqttBroker
