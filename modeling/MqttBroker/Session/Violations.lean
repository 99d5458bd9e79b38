import MqttBroker.Session.ConnectGate
import MqttBroker.Session.ExactlyOnce
import MqttBroker.Session.Forwarding

/-!
# Packets that a handler rejects

`procFrontRemoteMsg` returns an error for a second CONNECT, for a CONNECT with the reserved
bit, and for a PUBLISH when the store fails. The session and the tables of the manager are
as before then, but `RecvMsg` drops the error: the session goes on with the next packet.
-/

namespace MqttBroker

open Broker GoM Exec

variable {σ : Type}

/-! ## What a rejected packet leaves alone -/

/-- What a CONNECT sets. -/
def Session.settings (s : Session) :
    GoString × ℤ × Bool × Bool × GoString × UInt8 × GoString × ℤ :=
  (s.clientId, s.connected, s.willFlag, s.willRetain, s.willTopic, s.willQos, s.willMessage,
    s.keepalive)

/-- Messages were sent, published and stored; no session was set up or reported. -/
structure KeepsSettings (b b' : Broker σ) : Prop where
  settings : ∀ s, (b'.sessions s).settings = (b.sessions s).settings
  clostep : ∀ s, (b'.sessions s).clostep = (b.sessions s).clostep
  subscriptionMgr : b'.subscriptionMgr = b.subscriptionMgr
  mgr : b'.mgr = b.mgr
  closeSessionChan : b'.closeSessionChan = b.closeSessionChan

namespace KeepsSettings

theorem refl (b : Broker σ) : KeepsSettings b b := ⟨fun _ => rfl, fun _ => rfl, rfl, rfl, rfl⟩

instance : Std.Refl (KeepsSettings (σ := σ)) := ⟨refl⟩

instance : IsTrans (Broker σ) KeepsSettings where
  trans _ _ _ h h' :=
    { settings := fun s => (h'.settings s).trans (h.settings s)
      clostep := fun s => (h'.clostep s).trans (h.clostep s)
      subscriptionMgr := h'.subscriptionMgr.trans h.subscriptionMgr
      mgr := h'.mgr.trans h.mgr
      closeSessionChan := h'.closeSessionChan.trans h.closeSessionChan }

/-- Writing other fields of a session. -/
theorem modifySession {this : SessionRef} {f : Session → Session}
    (hsettings : ∀ s, (f s).settings = s.settings) (hclostep : ∀ s, (f s).clostep = s.clostep) :
    Respects KeepsSettings (modifySession this f : GoM σ Unit) := by
  refine Respects.modify fun b => ⟨fun s => ?_, fun s => ?_, rfl, rfl, rfl⟩
  · by_cases hs : s = this
    · rw [hs, setSession_self, hsettings]
    · rw [setSession_of_ne f b hs]
  · by_cases hs : s = this
    · rw [hs, setSession_self, hclostep]
    · rw [setSession_of_ne f b hs]

theorem newPacket (p : ControlPacket) : Respects KeepsSettings (newPacket p : GoM σ PacketRef) :=
  Respects.modifyGet fun _ => ⟨fun _ => rfl, fun _ => rfl, rfl, rfl, rfl⟩

theorem modifyPacket (msg : PacketRef) (f : ControlPacket → ControlPacket) :
    Respects KeepsSettings (modifyPacket msg f : GoM σ Unit) :=
  Respects.modify fun _ => ⟨fun _ => rfl, fun _ => rfl, rfl, rfl, rfl⟩

theorem emit (e : Event) : Respects KeepsSettings (emit e : GoM σ Unit) :=
  Respects.modify fun _ => ⟨fun _ => rfl, fun _ => rfl, rfl, rfl, rfl⟩

theorem callStore {α : Type} (f : σ → α × σ) : Respects KeepsSettings (callStore f : GoM σ α) :=
  Respects.modifyGet fun _ => ⟨fun _ => rfl, fun _ => rfl, rfl, rfl, rfl⟩

theorem allocToken (tType : UInt8) :
    Respects KeepsSettings (allocToken tType : GoM σ (Option TokenRef)) := by
  unfold GoM.allocToken
  split
  · exact Respects.pure _
  · exact Respects.modifyGet fun _ => ⟨fun _ => rfl, fun _ => rfl, rfl, rfl, rfl⟩

theorem send (this : SessionRef) (msg : PacketRef) :
    Respects KeepsSettings (Channel.send this msg : GoM σ (Option GoError)) := by
  refine Respects.bind (Respects.gets _) fun s => Respects.ite (Respects.pure _) ?_
  refine Respects.bind (modifySession (fun _ => rfl) fun _ => rfl) fun _ => ?_
  refine Respects.bind (Respects.gets _) fun p => ?_
  exact Respects.bind (emit _) fun _ => Respects.pure _

theorem sendNew (this : SessionRef) (p : ControlPacket) :
    Respects KeepsSettings (Channel.sendNew this p : GoM σ (Option GoError)) :=
  Respects.bind (newPacket p) fun msg => send this msg

end KeepsSettings

namespace Session

variable (cfg : Config) (S : StoreMgr σ)

/-! ## Forwarding -/

theorem publishing_keepsSettings (msg : PacketRef) : Publishing msg (KeepsSettings (σ := σ)) where
  queue _ f hf _ := by
    refine KeepsSettings.modifySession (fun x => ?_) fun x => ?_
    · have hsettings := congrArg settings (hf x)
      exact hsettings
    · have hclostep := congrArg Session.clostep (hf x)
      exact hclostep
  newPacket := KeepsSettings.newPacket
  number _ := KeepsSettings.modifyPacket msg _
  allocToken := KeepsSettings.allocToken
  publish _ _ _ := KeepsSettings.emit _
  send s := KeepsSettings.send s msg

theorem forward_keepsSettings (order : SubscriberOrder) (this : SessionRef)
    (forwarded : Option PacketRef) :
    Respects KeepsSettings (forward cfg order this forwarded : GoM σ Unit) := by
  cases forwarded with
  | none => exact Respects.pure ()
  | some msg =>
    refine Respects.bind (Respects.gets _) fun s => Respects.ite ?_ ?_
    · refine Respects.bind ?_ fun subs =>
        rounds_respects ((publishing_keepsSettings msg).sendToSubcriberRound cfg this) subs
      refine Respects.bind (Respects.gets _) fun p =>
        Respects.bind (KeepsSettings.emit _) fun _ => Respects.bind (Respects.gets _) fun m => ?_
      exact Respects.bind (KeepsSettings.modifyPacket msg _) fun _ => Respects.pure _
    · exact Respects.bind (Respects.gets _) fun p => KeepsSettings.emit _

/-! ## The handlers that fail -/

theorem onPublish_keepsSettings (this : SessionRef) (msg : PacketRef) (p : PublishPacket) :
    Respects KeepsSettings (onPublish S this msg p) :=
  onPublish_respects KeepsSettings.callStore (KeepsSettings.sendNew this) msg p

theorem sendNew_yields (this : SessionRef) (p : ControlPacket) :
    Yields (fun err => err = none) (Channel.sendNew this p : GoM σ (Option GoError)) := by
  refine Yields.bind fun msg => Yields.bind fun s => Yields.ite (Yields.pure rfl) ?_
  exact Yields.bind fun _ => Yields.bind fun _ => Yields.bind fun _ => Yields.pure rfl

theorem onConnack_yields (this : SessionRef) (m : ConnackPacket) :
    Yields (fun handled => handled.err = none) (onConnack this m : GoM σ Handled) := by
  have hrest : Yields (fun handled => handled.err = none)
      (finishConnack this m : GoM σ Handled) := by
    refine Yields.bind fun s => Yields.bind fun _ => ?_
    split
    · exact Yields.pure rfl
    · exact Yields.ite (Yields.bind fun _ => Yields.bind fun _ => Yields.pure rfl)
        (Yields.bind fun _ => Yields.pure rfl)
  exact Yields.ite (Yields.bind fun _ => hrest) (Yields.bind fun _ => hrest)

theorem onPubrel_yields (this : SessionRef) (m : IdPacket) :
    Yields (fun handled => handled.err = none) (onPubrel S this m) := by
  refine Yields.bind fun _ => Yields.bind fun s => Yields.bind fun r => ?_
  cases r with
  | error _ => exact Yields.pure rfl
  | ok smsg => exact Yields.bind fun _ => Yields.bind fun _ => Yields.pure rfl

theorem onSubscribe_yields (this : SessionRef) (m : SubscribePacket) :
    Yields (fun handled => handled.err = none) (onSubscribe this m : GoM σ Handled) := by
  refine Yields.bind fun b => ?_
  split
  · exact Yields.fault _
  · refine Yields.bind fun _ => Yields.bind fun _ => ?_
    exact Yields.bind_of (sendNew_yields this _) fun err herr => Yields.pure herr

/-- A handler that fails is `onPublish`, or `onConnect` before it has done anything. -/
theorem procFrontRemoteMsg_keepsSettings {this : SessionRef} {msg : PacketRef} {p : ControlPacket}
    {b b' : Broker σ} {handled : Handled}
    (h : procFrontRemoteMsg cfg S this msg p b = (.ok handled, b'))
    (herr : handled.err.isSome = true) : KeepsSettings b b' := by
  have hnone : ∀ {m : GoM σ Handled}, Yields (fun handled => handled.err = none) m →
      m b = (.ok handled, b') → KeepsSettings b b' := by
    intro m hm hrun
    rw [hm b handled b' hrun] at herr
    exact absurd herr (by simp)
  cases p with
  | connect m =>
    rw [procFrontRemoteMsg, onConnect, bind_run_ok (session_run this b)] at h
    split at h
    · exact (pure_eq_ok h).2 ▸ KeepsSettings.refl b
    · split at h
      · exact (pure_eq_ok h).2 ▸ KeepsSettings.refl b
      · -- an accepted CONNECT returns what `Channel.Send` returns
        refine hnone (Yields.bind fun _ => Yields.bind fun _ => Yields.bind fun _ => ?_) h
        refine Yields.bind_of (sendNew_yields this _) fun err herr => ?_
        exact Yields.bind fun _ => Yields.bind fun _ => Yields.bind fun _ => Yields.bind fun _ =>
          Yields.pure herr
  | publish m =>
    have hkeeps := onPublish_keepsSettings S this msg m b
    rwa [show onPublish S this msg m b = (.ok handled, b') from h] at hkeeps
  | connack m => exact hnone (onConnack_yields this m) h
  | pubrec m =>
    exact hnone (Yields.bind fun _ => Yields.bind fun _ => Yields.bind fun _ => Yields.pure rfl) h
  | pubrel m => exact hnone (onPubrel_yields S this m) h
  | subscribe m => exact hnone (onSubscribe_yields this m) h
  | unsubscribe m =>
    exact hnone (Yields.bind fun _ => Yields.bind fun _ => Yields.pure rfl) h
  | pingreq m => exact hnone (Yields.bind fun _ => Yields.pure rfl) h
  | pingresp m => exact hnone (Yields.pure rfl) h
  | disconnect m => exact hnone (Yields.bind fun _ => Yields.pure rfl) h
  | puback m | pubcomp m | suback m | unsuback m =>
    exact hnone (Yields.bind fun _ => Yields.pure rfl) h

/-! ## After the error -/

/-- The handler of one packet to its end, with the error of `procFrontRemoteMsg`. -/
def handleErr (order : SubscriberOrder) (this : SessionRef) (p : ControlPacket) :
    GoM σ (Option GoError) := do
  let msg ← newPacket p
  let handled ← procFrontRemoteMsg cfg S this msg p
  forward cfg order this handled.forwarded
  pure handled.err

variable {cfg S} {order : SubscriberOrder} {this : SessionRef} {p : ControlPacket}
  {b b' : Broker σ} {err : Option GoError}

/-- `RecvMsg` calls the handler and drops its error. -/
theorem recvMsg_of_handleErr (hrunning : (b.sessions this).clostep = .running)
    (h : handleErr cfg S order this p b = (.ok err, b')) :
    recvMsg cfg S order this p b = (.ok (), b') := by
  obtain ⟨msg, b₁, hnew, h⟩ := bind_eq_ok h
  obtain ⟨handled, b₂, hproc, h⟩ := bind_eq_ok h
  obtain ⟨_, b₃, hforward, h⟩ := bind_eq_ok h
  obtain ⟨-, rfl⟩ := pure_eq_ok h
  rw [recvMsg_of_running cfg S order p hrunning, handleMsg, bind_run_ok hnew, bind_run_ok hproc]
  exact hforward

theorem handleErr_keepsSettings (h : handleErr cfg S order this p b = (.ok err, b'))
    (herr : err.isSome = true) : KeepsSettings b b' := by
  obtain ⟨msg, b₁, hnew, h⟩ := bind_eq_ok h
  obtain ⟨handled, b₂, hproc, h⟩ := bind_eq_ok h
  obtain ⟨_, b₃, hforward, h⟩ := bind_eq_ok h
  obtain ⟨rfl, rfl⟩ := pure_eq_ok h
  have hnewKeeps := KeepsSettings.newPacket p b
  rw [hnew] at hnewKeeps
  have hforwardKeeps := forward_keepsSettings cfg order this handled.forwarded b₂
  rw [hforward] at hforwardKeeps
  have hprocKeeps := procFrontRemoteMsg_keepsSettings cfg S hproc herr
  exact trans_of KeepsSettings (trans_of KeepsSettings hnewKeeps hprocKeeps) hforwardKeeps

/-- The end of a connection after a packet: nothing was set up, the session is reported for
closing, and no later packet is handled. -/
structure Ended (cfg : Config) (S : StoreMgr σ) (this : SessionRef) (b b' : Broker σ) : Prop where
  keeps : KeepsSettings b b'
  reported : (b'.sessions this).clostep ≠ .running
  unhandled : ∀ order p, recvMsg cfg S order this p b' = (.ok (), b')

/-- A packet whose handler fails sets nothing up, but it ends the connection only if the
session had been reported before it. -/
theorem violation_ends_iff {err : GoError}
    (h : handleErr cfg S order this p b = (.ok (some err), b')) :
    KeepsSettings b b' ∧ (Ended cfg S this b b' ↔ (b.sessions this).clostep ≠ .running) := by
  have hkeeps : KeepsSettings b b' := handleErr_keepsSettings h rfl
  refine ⟨hkeeps, fun hended => ?_, fun hreported => ?_⟩
  · rw [← hkeeps.clostep]
    exact hended.reported
  · have hreported' : (b'.sessions this).clostep ≠ .running := by
      rw [hkeeps.clostep]
      exact hreported
    refine ⟨hkeeps, hreported', fun order p => ?_⟩
    rw [recvMsg, bind_run_ok (session_run this b'), if_pos hreported']
    rfl

/-- A second CONNECT. -/
theorem violation_ends_iff_connect : ∃ b',
    handleErr {} (MemStore.storeMgr default) RangeOrder.ascending 0 (connectAs (str "a"))
        (afterConnect default) = (.ok (connErrors errProtocolViolation), b') ∧
      KeepsSettings (afterConnect default) b' ∧
      ¬ Ended {} (MemStore.storeMgr default) 0 (afterConnect default) b' := by
  have hrun : (handleErr {} (MemStore.storeMgr default) RangeOrder.ascending 0
      (connectAs (str "a")) (afterConnect default)).1 =
        .ok (connErrors errProtocolViolation) := by
    decide +kernel
  have hrunning : ((afterConnect default).sessions 0).clostep = .running := by decide +kernel
  obtain ⟨hkeeps, hended⟩ := violation_ends_iff (Prod.ext hrun rfl)
  exact ⟨_, Prod.ext hrun rfl, hkeeps, fun h => hended.mp h hrunning⟩

/-- A SUBSCRIBE that comes after the second CONNECT enters the session into the tree. -/
theorem violation_not_ended : ∃ b₁ b₂,
    handleErr {} (MemStore.storeMgr default) RangeOrder.ascending 0 (connectAs (str "a"))
        (afterConnect default) = (.ok (connErrors errProtocolViolation), b₁) ∧
      recvMsg {} (MemStore.storeMgr default) RangeOrder.ascending 0 (subscribeByte 120 0) b₁ =
        (.ok (), b₂) ∧
      (b₂.sessions 0).clostep = .running ∧
      0 ∈ b₂.subscriptionMgr.getSessions (str "x") := by
  refine ⟨_, _, Prod.ext ?_ rfl, Prod.ext ?_ rfl, ?_, ?_⟩
  · decide +kernel
  · decide +kernel
  · decide +kernel
  · decide +kernel

end Session
end MqttBroker
