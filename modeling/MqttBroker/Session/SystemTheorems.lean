import Mathlib.Data.List.Perm.Basic
import MqttBroker.Session.Moves

/-!
# Every reachable process is consistent

`step_move` says for every action of the process what it does to the entries; the
invariants over runs follow from it. `Consistent` is the first of them: the tokens are in
order, and the goroutines hold packets that exist.
-/

namespace MqttBroker

open Broker GoM Exec

variable {σ : Type} (cfg : Config) (S : StoreMgr σ)

/-! ## Goroutines -/

/-- What the next round numbers: the packet of its call of `Publish`. -/
def Work.numbering (b : Broker σ) (w : Work) : Numbering :=
  match w.call cfg b with
  | some (this, msg) => .publish this msg
  | none => .nothing

namespace Goroutine

/-- The entry with which a goroutine is blocked. -/
def hands (g : Goroutine) (s : SessionRef) : List PacketAndToken :=
  match g.waiting with
  | some (this, pt) => entryFor this pt s
  | none => []

/-- What the next step of a goroutine numbers. -/
def numbering (b : Broker σ) (g : Goroutine) : Numbering :=
  match g.waiting, g.work with
  | none, w :: _ => w.numbering cfg b
  | _, _ => .nothing

/-- The packets it holds exist. -/
def Valid (b : Broker σ) (g : Goroutine) : Prop := ∀ w ∈ g.work, w.Valid b

end Goroutine

/-- `enqueue` by whether the session takes the entry. -/
theorem Session.enqueue_cases (this : SessionRef) (pt : PacketAndToken) {b : Broker σ}
    (hb : b.InRange) (hpt : pt.p < b.packets.next) :
    match enqueue cfg this pt b with
    | (.ok _, b') => Ledger (entryFor this pt) b b' ∧ (b.sessions this).isConnected ∧
        ¬ (b.sessions this).isClosed ∨ b' = b
    | (.error e, b') => e = .blocked this pt ∧ b' = b ∧ (b.sessions this).isConnected ∧
        ¬ (b.sessions this).isClosed := by
  have hledger := enqueue_ledger cfg this hb hpt
  have hrun : ¬ ((b.sessions this).isConnected ∧ ¬ (b.sessions this).isClosed) →
      enqueue cfg this pt b = (.ok (pt.t, some (.new "Publish session is stoped")), b) := by
    intro hc
    rw [enqueue, bind_run_ok (session_run this b), if_pos (by tauto)]
    rfl
  by_cases hc : (b.sessions this).isConnected ∧ ¬ (b.sessions this).isClosed
  · rcases hr : enqueue cfg this pt b with ⟨e | r, b'⟩
    · obtain ⟨he, rfl⟩ := enqueue_error cfg hr
      exact ⟨he, rfl, hc⟩
    · rw [hr] at hledger
      exact .inl ⟨hledger, hc⟩
  · rw [hrun hc]
    exact .inr rfl

namespace Process

/-- The entries with which goroutines are blocked on a session. -/
def waitingOn (P : Process σ) (s : SessionRef) : List PacketAndToken :=
  P.goroutines.flatMap (·.hands s)

/-- What an action numbers. -/
def numbering (P : Process σ) : Action → Numbering
  | .advance i => (P.goroutines[i]?.map (·.numbering cfg P.broker)).getD .nothing
  | .send s p => if (P.broker.sessions s).channel.isStoped then .nothing else .send s p.1
  | _ => .nothing

/-- The invariant of every run. -/
structure Consistent (P : Process σ) : Prop where
  sound : Sound P.waitingOn P.broker
  valid : ∀ g ∈ P.goroutines, g.Valid P.broker

/-! ## Goroutines that advance -/

/-- The entry in the hands of a goroutine, if it is still there. -/
def handsOf (g : Option Goroutine) (s : SessionRef) : List PacketAndToken :=
  (g.map (·.hands s)).getD []

/-- `Publish` as a move: in the end its entry is not in hand, unless it blocks. -/
theorem publish_move (rest : SessionRef → List PacketAndToken) {w : Work} {this : SessionRef}
    {msg : PacketRef} {b b₁ : Broker σ} (hb : b.InRange) (h : w.Calls cfg S this msg b b₁) :
    match Session.publish cfg this msg b₁ with
    | (.ok _, b') => Move (.publish this msg) rest b rest b'
    | (.error e, b') => ∃ pt, e = .blocked this pt ∧
        Move (.publish this msg) rest b (fun s => rest s ++ entryFor this pt s) b' := by
  obtain ⟨t, b₂, hpub, hpublish⟩ := Session.publish_run cfg this msg b₁
  have hb₂ : b₂.InRange := hpub.inRange (h.quiet hb).inRange
  have hmsg : msg < b₂.packets.next := by
    rw [hpub.packets]
    exact h.valid.1
  have hcases := Session.enqueue_cases cfg this ⟨msg, t⟩ hb₂ hmsg
  have hopen : (b₂.sessions this).isConnected ∧ ¬ (b₂.sessions this).isClosed →
      (b.sessions this).isConnected ∧ ¬ (b.sessions this).isClosed := by
    rw [hpub.sessions, setSession_self, h.sessions]
    exact id
  have hmove : ∀ {w' : SessionRef → List PacketAndToken} {b' : Broker σ},
      _ → Move (.publish this msg) rest b w' b' :=
    .publish h.quiet h.kept h.sessions h.tokens h.trace h.old h.valid hpub
  rw [hpublish]
  rcases he : Session.enqueue cfg this ⟨msg, t⟩ b₂ with ⟨e | a, b₃⟩
  · rw [he] at hcases
    obtain ⟨rfl, rfl, hc⟩ := hcases
    exact ⟨⟨msg, t⟩, rfl, hmove (.inr (.inl ⟨rfl, fun _ => List.Perm.refl _, hopen hc⟩))⟩
  · rw [he] at hcases
    rcases hcases with ⟨hl, hc⟩ | rfl
    · exact hmove (.inl ⟨hl, fun _ => List.Perm.refl _, hopen hc⟩)
    · exact hmove (.inr (.inr ⟨rfl, fun _ => List.Perm.refl _⟩))

/-- A round as a move. -/
theorem round_move (rest : SessionRef → List PacketAndToken) {w : Work} {b : Broker σ}
    (hb : b.InRange) (hvalid : w.Valid b) :
    match w.round cfg S b with
    | (.ok _, b') => Move (w.numbering cfg b) rest b rest b'
    | (.error e, b') => ∃ this pt, e = .blocked this pt ∧
        Move (w.numbering cfg b) rest b (fun s => rest s ++ entryFor this pt s) b' := by
  rw [Work.numbering]
  cases hcall : w.call cfg b with
  | none =>
    obtain ⟨go, b₁, hr, hq⟩ := Work.round_of_call_none (S := S) hcall
    rw [hr]
    exact .quiet (hq hb) fun _ => List.Perm.refl _
  | some c =>
    obtain ⟨this, msg⟩ := c
    obtain ⟨b₁, hcalls⟩ := Work.round_of_call (S := S) hb hvalid hcall
    obtain ⟨k, hrun⟩ := hcalls.run
    have hmove := publish_move cfg S rest hb hcalls
    rw [hrun, bind_run]
    rcases hp : Session.publish cfg this msg b₁ with ⟨e | r, b'⟩
    · rw [hp] at hmove
      obtain ⟨pt, he, hm⟩ := hmove
      exact ⟨this, pt, he, hm⟩
    · rw [hp] at hmove
      exact hmove

/-- A step of a goroutine as a move, with `rest` the entries in the hands of the others. -/
theorem advance_move (rest : SessionRef → List PacketAndToken) {g : Goroutine} {b b' : Broker σ}
    {g' : Option Goroutine} (hb : b.InRange) (hheld : ∀ s, ∀ pt ∈ g.hands s, pt.p < b.packets.next)
    (hvalid : g.Valid b) (h : advance cfg S g b = some (g', b')) :
    Move (g.numbering cfg b) (fun s => g.hands s ++ rest s) b
      (fun s => handsOf g' s ++ rest s) b' ∧ ∀ g'' ∈ g', g''.Valid b' := by
  obtain ⟨owner, waiting, work⟩ := g
  cases waiting with
  | some held =>
    obtain ⟨this, pt⟩ := held
    have hpt : pt.p < b.packets.next := by
      refine hheld this pt ?_
      rw [Goroutine.hands]
      exact mem_entryFor.mpr ⟨rfl, rfl⟩
    have hl := Session.pushPedding_ledger cfg this hb hpt
    rcases hr : Session.pushPedding cfg this pt b with ⟨e | a, b₁⟩
    · simp [advance, hr] at h
    · rw [hr] at hl
      obtain ⟨rfl, rfl⟩ : _ = g' ∧ b₁ = b' := by simpa [advance, hr] using h
      have hmove : Move .nothing (fun s => entryFor this pt s ++ rest s) b rest b₁ :=
        .queue hl fun s => List.perm_append_comm
      refine ⟨hmove, fun g'' hg'' w hw => ?_⟩
      obtain rfl := Option.some.inj hg''
      exact Work.valid_of_kept (hmove.kept hb) (hvalid w hw)
  | none =>
    cases work with
    | nil =>
      obtain ⟨rfl, rfl⟩ : none = g' ∧ b = b' := by simpa [advance] using h
      exact ⟨.quiet (.refl hb) fun _ => List.Perm.refl _, fun g'' hg'' => absurd hg'' (by simp)⟩
    | cons w ws =>
      have hw := hvalid w List.mem_cons_self
      have hws : ∀ w' ∈ w.next ++ ws, w'.Valid b := by
        intro w' hw'
        rcases List.mem_append.mp hw' with h' | h'
        · exact Work.valid_next hw w' h'
        · exact hvalid w' (List.mem_cons_of_mem _ h')
      have hmove := round_move cfg S rest hb hw
      rcases hr : w.round cfg S b with ⟨e | go, b₁⟩
      · rw [hr] at hmove
        obtain ⟨this, pt, rfl, hm⟩ := hmove
        obtain ⟨rfl, rfl⟩ : _ = g' ∧ b₁ = b' := by simpa [advance, hr] using h
        refine ⟨hm.perm (fun s => List.Perm.refl _) fun s => List.perm_append_comm, ?_⟩
        intro g'' hg'' w' hw'
        obtain rfl := Option.some.inj hg''
        exact Work.valid_of_kept (hm.kept hb) (hws w' hw')
      · rw [hr] at hmove
        have hleft : ∃ ws', g' = some { owner, waiting := none, work := ws' } ∧ b₁ = b' ∧
            ∀ w' ∈ ws', w' ∈ w.next ++ ws := by
          cases go with
          | true =>
            obtain ⟨rfl, rfl⟩ : _ = g' ∧ b₁ = b' := by simpa [advance, hr] using h
            exact ⟨_, rfl, rfl, fun _ hw' => hw'⟩
          | false =>
            obtain ⟨rfl, rfl⟩ : _ = g' ∧ b₁ = b' := by simpa [advance, hr] using h
            exact ⟨_, rfl, rfl, fun _ hw' => List.mem_append_right _ hw'⟩
        obtain ⟨ws', rfl, rfl, hsub⟩ := hleft
        refine ⟨hmove, fun g'' hg'' w' hw' => ?_⟩
        obtain rfl := Option.some.inj hg''
        exact Work.valid_of_kept (hmove.kept hb) (hws w' (hsub w' hw'))

/-! ## Steps -/

/-- A step as a move, after which the goroutines hold packets that exist. -/
structure Moves (n : Numbering) (P P' : Process σ) : Prop where
  move : Move n P.waitingOn P.broker P'.waitingOn P'.broker
  valid : ∀ g ∈ P'.goroutines, g.Valid P'.broker

variable {cfg S} {P P' : Process σ}

theorem run_moves {α : Type} {m : GoM σ α} (hP : P.Consistent)
    (hm : Quiet P.broker (m P.broker).2) (h : P.run m = some P') : Moves .nothing P P' := by
  have hl := hm hP.sound.inRange
  rcases hr : m P.broker with ⟨e | a, b'⟩
  · simp [run, hr] at h
  · rw [hr] at hl
    obtain rfl : { P with broker := b' } = P' := by simpa [run, hr] using h
    exact ⟨.quiet hl fun _ => List.Perm.refl _,
      fun g hg w hw => Work.valid_of_kept hl.kept (hP.valid g hg w hw)⟩

theorem launch_moves {owner : Option SessionRef} {m : GoM σ (List Work)} {b : Broker σ}
    (hP : P.Consistent) (hb : Quiet P.broker b) (hm : Starts m b)
    (h : { P with broker := b }.launch owner m = some P') : Moves .nothing P P' := by
  have hl := trans_of Quiet hb hm.quiet hP.sound.inRange
  rcases hr : m b with ⟨e | ws, b'⟩
  · simp [launch, hr] at h
  · rw [hr] at hl
    obtain rfl : { broker := b', goroutines := P.goroutines ++ [{ owner, work := ws }] } = P' := by
      simpa [launch, hr] using h
    constructor
    · refine .quiet hl fun s => ?_
      show ((P.goroutines ++ [_]).flatMap fun g : Goroutine => g.hands s).Perm _
      rw [List.flatMap_append, List.flatMap_singleton]
      show (P.waitingOn s ++ []).Perm _
      rw [List.append_nil]
    · intro g hg w hw
      rcases List.mem_append.mp hg with hg | hg
      · exact Work.valid_of_kept hl.kept (hP.valid g hg w hw)
      · rw [List.mem_singleton.mp hg] at hw
        exact hm.valid ws b' hr w hw

/-- `Send` on a running channel. -/
theorem send_moves {s : SessionRef} {p : ControlPacket} (hP : P.Consistent)
    (hchan : (P.broker.sessions s).channel.isStoped = false)
    (h : P.run (newPacket p >>= fun msg => Session.send cfg s msg) = some P') :
    Moves (.send s p) P P' := by
  have hq : Quiet P.broker { P.broker with packets := (P.broker.packets.alloc p).2 } :=
    newPacket_quiet p P.broker
  have hb := hP.sound.inRange
  rcases hr : (newPacket p >>= fun msg => Session.send cfg s msg : GoM σ _) P.broker with
    ⟨e | r, b'⟩
  · simp [run, hr] at h
  obtain rfl : { P with broker := b' } = P' := by simpa [run, hr] using h
  rw [bind_run_ok (newPacket_run p P.broker)] at hr
  obtain ⟨t, b₁, b₂, hs, hp, htrace, halloc, hprep, hl⟩ :=
    Session.send_run cfg (hq hb).inRange (Nat.lt_succ_self _) hchan hr
  have hcell : (P.broker.packets.alloc p).2.cells P.broker.packets.next = p := Heap.alloc_self ..
  rw [hcell] at hprep hl
  have hmove : Move (.send s p) P.waitingOn P.broker P.waitingOn b' :=
    .send hq rfl rfl rfl rfl hs hp htrace halloc hprep hl fun _ => List.Perm.refl _
  exact ⟨hmove, fun g hg w hw => Work.valid_of_kept (hmove.kept hb) (hP.valid g hg w hw)⟩

/-- The entries in hand are those of goroutine `i` and those of the others. -/
theorem waitingOn_perm {i : ℕ} {g : Goroutine} (hg : P.goroutines[i]? = some g) (s : SessionRef) :
    (P.waitingOn s).Perm (g.hands s ++ (P.goroutines.eraseIdx i).flatMap (·.hands s)) := by
  obtain ⟨hi, rfl⟩ := List.getElem?_eq_some_iff.mp hg
  exact ((List.getElem_cons_eraseIdx_perm hi).flatMap_right _).symm

theorem replace_waitingOn {i : ℕ} (hi : i < P.goroutines.length) (g : Option Goroutine)
    (b : Broker σ) (s : SessionRef) : ((P.replace i (g, b)).waitingOn s).Perm
      (handsOf g s ++ (P.goroutines.eraseIdx i).flatMap (·.hands s)) := by
  cases g with
  | none => exact List.Perm.refl _
  | some g => exact (List.set_perm_cons_eraseIdx hi g).flatMap_right _

theorem advance_moves {i : ℕ} {g : Goroutine} (hP : P.Consistent)
    (hg : P.goroutines[i]? = some g)
    (h : (advance cfg S g P.broker).map (P.replace i) = some P') :
    Moves (g.numbering cfg P.broker) P P' := by
  obtain ⟨⟨g', b'⟩, hadv, rfl⟩ := Option.map_eq_some_iff.mp h
  have hmem : g ∈ P.goroutines := List.mem_of_getElem? hg
  have hi := (List.getElem?_eq_some_iff.mp hg).1
  obtain ⟨hmove, hvalid⟩ := advance_move cfg S
    (fun s => (P.goroutines.eraseIdx i).flatMap (·.hands s)) hP.sound.inRange
    (fun s pt hpt => hP.sound.waiting s pt (List.mem_flatMap.mpr ⟨g, hmem, hpt⟩))
    (hP.valid g hmem) hadv
  have hbroker : (P.replace i (g', b')).broker = b' := by
    cases g' with
    | _ => rfl
  constructor
  · rw [hbroker]
    exact hmove.perm (fun s => (waitingOn_perm hg s).symm) fun s => replace_waitingOn hi g' b' s
  · rw [hbroker]
    intro g'' hg''
    have hold : g'' ∈ P.goroutines → g''.Valid b' := fun hmem w hw =>
      Work.valid_of_kept (hmove.kept hP.sound.inRange) (hP.valid g'' hmem w hw)
    cases g' with
    | none => exact hold (List.mem_of_mem_eraseIdx hg'')
    | some g' =>
      rcases List.mem_or_eq_of_mem_set hg'' with hmem | rfl
      · exact hold hmem
      · exact hvalid g'' rfl

/-- What a step of the process does to the entries. -/
theorem step_moves {a : Action} (hP : P.Consistent) (h : step cfg S a P = some P') :
    Moves (P.numbering cfg a) P P' := by
  have hb := hP.sound.inRange
  have hrefl : Quiet P.broker P.broker := refl_of Quiet P.broker
  cases a with
  | handleConnection s => exact run_moves hP (mgrEvent_quiet _ _) h
  | recvPacket s p order =>
    rw [step] at h
    split at h
    · exact absurd h (by simp)
    · exact launch_moves hP hrefl (recvStart_starts cfg S hb p.2.typed) h
  | recvError s =>
    rw [step] at h
    split at h
    · exact absurd h (by simp)
    · exact run_moves hP (Session.recvError_quiet s _) h
  | sendRound s written => exact run_moves hP (Session.sendRound_quiet cfg s written _) h
  | tick s => exact run_moves hP (Session.onTick_quiet cfg s _) h
  | closer =>
    have hquiet : Respects Quiet (closerRound : GoM σ Unit) := by
      refine Respects.bind get_quiet fun b => ?_
      split
      · exact Respects.pure ()
      · exact Respects.bind (modify_quiet (fun _ => rfl) (fun _ => rfl) (fun _ => rfl)
          fun _ => rfl) fun _ => Session.close_quiet _
    exact run_moves hP (hquiet _) h
  | send s p =>
    rw [numbering]
    cases hchan : (P.broker.sessions s).channel.isStoped with
    | false => exact send_moves hP hchan h
    | true =>
      refine run_moves hP ?_ h
      rw [bind_run_ok (newPacket_run p.1 P.broker), Session.send, bind_run_ok (session_run _ _),
        if_pos hchan]
      exact newPacket_quiet p.1 P.broker
  | clientPublish s topic body qos retain =>
    exact launch_moves hP hrefl (clientPublishStart_starts hb) h
  | mgrPublish topic msg qos order => exact launch_moves hP hrefl (mgrPublishStart_starts hb) h
  | overview bsjson order => exact launch_moves hP hrefl (overviewStart_starts hb) h
  | sessionInfo marshalIndent order => exact launch_moves hP hrefl (sessionInfoStart_starts hb) h
  | start i order =>
    rw [step] at h
    split at h
    · exact absurd h (by simp)
    · rename_i g _
      have hspawned : Quiet P.broker
          { P.broker with spawned := P.broker.spawned.eraseIdx i } :=
        .of_footprint rfl rfl rfl fun _ => rfl
      exact launch_moves hP hspawned (g.start_starts S (hspawned hb).inRange) h
  | advance i =>
    rw [step] at h
    rw [numbering]
    cases hg : P.goroutines[i]? with
    | none =>
      rw [hg] at h
      exact absurd h (by simp)
    | some g =>
      rw [hg] at h
      exact advance_moves hP hg h
  | elapse d =>
    exact run_moves hP (m := Exec.modify fun b => { b with now := b.now + d })
      (.of_footprint rfl rfl rfl fun _ => rfl) h

theorem Moves.consistent {n : Numbering} (h : Moves n P P') (hP : P.Consistent) :
    P'.Consistent :=
  ⟨h.move.sound hP.sound, h.valid⟩

/-! ## Runs -/

theorem Initial.session (h : Initial cfg P) (s : SessionRef) :
    P.broker.entries s = [] ∧ (P.broker.sessions s).channel.iSendList = [] ∧
      (P.broker.sessions s).connectToken = none ∧ (P.broker.sessions s).disconnectToken = none := by
  obtain ⟨now, conn, isServer, clientId, hs⟩ := h.sessions s
  rw [Broker.entries, hs]
  exact ⟨rfl, rfl, rfl, rfl⟩

theorem Initial.waitingOn (h : Initial cfg P) (s : SessionRef) : P.waitingOn s = [] := by
  rw [Process.waitingOn, h.goroutines]
  rfl

theorem Initial.consistent (h : Initial cfg P) : P.Consistent := by
  have hnone : ∀ s, P.waitingOn s ++ P.broker.entries s = [] := by
    intro s
    rw [h.waitingOn, (h.session s).1]
    rfl
  constructor
  · refine ⟨⟨fun s pt hpt => ?_, fun s r hr => ?_⟩, fun s pt hpt => ?_, fun t ht => ?_,
      fun s pt hpt => ?_, fun s => ?_, fun s s' _ pt hpt => ?_⟩
    · rw [(h.session s).1] at hpt
      exact absurd hpt List.not_mem_nil
    · rw [(h.session s).2.1] at hr
      exact absurd hr List.not_mem_nil
    · rw [h.waitingOn] at hpt
      exact absurd hpt List.not_mem_nil
    · obtain ⟨s, hs⟩ := ht
      rw [(h.session s).2.2.1, (h.session s).2.2.2] at hs
      simp at hs
    · rw [hnone] at hpt
      exact absurd hpt List.not_mem_nil
    · rw [hnone]
      exact List.nodup_nil
    · rw [hnone] at hpt
      exact absurd hpt List.not_mem_nil
  · rw [h.goroutines]
    exact fun g hg => absurd hg List.not_mem_nil

/-- Every process that is reached is consistent. -/
theorem reach_consistent {ok : Process σ → Action → Prop} (h : (system cfg S).Reach ok P) :
    P.Consistent := by
  refine h.invariant (fun P h0 => ?_) fun P a P' hP _ hs => ?_
  · have hinit : Initial cfg P := h0
    exact hinit.consistent
  · have hstep : step cfg S a P = some P' := hs
    exact (step_moves hP hstep).consistent hP

/-! ## Receive loops that nothing interrupts -/

section

variable {order : SubscriberOrder} {s : SessionRef} {owner : Option SessionRef} {w : Work}
  {ws : List Work} {b b' : Broker σ}

/-- The receive loop reads a packet while no goroutine is inside a loop. -/
theorem step_recvPacket {p : Inbound} {work : List Work}
    (hstart : recvStart cfg S order s p.1 b = (.ok work, b')) :
    step cfg S (.recvPacket s p order) { broker := b, goroutines := [] } =
      some { broker := b', goroutines := [{ owner := some s, work }] } := by
  have hnone : ¬ ∃ g ∈ ([] : List Goroutine), g.owner = some s := by simp
  rw [step, if_neg hnone, launch, hstart]
  rfl

/-- A goroutine that is alone makes a round. -/
theorem step_advance_next (hround : w.round cfg S b = (.ok true, b')) :
    step cfg S (.advance 0) { broker := b, goroutines := [{ owner, work := w :: ws }] } =
      some { broker := b', goroutines := [{ owner, work := w.next ++ ws }] } := by
  have hadvance : advance cfg S { owner, work := w :: ws } b =
      some (some { owner, work := w.next ++ ws }, b') := by
    simp [advance, hround]
  show (advance cfg S { owner, work := w :: ws } b).map _ = _
  rw [hadvance]
  rfl

/-- A round breaks out of its loop. -/
theorem step_advance_break (hround : w.round cfg S b = (.ok false, b')) :
    step cfg S (.advance 0) { broker := b, goroutines := [{ owner, work := w :: ws }] } =
      some { broker := b', goroutines := [{ owner, work := ws }] } := by
  have hadvance : advance cfg S { owner, work := w :: ws } b =
      some (some { owner, work := ws }, b') := by
    simp [advance, hround]
  show (advance cfg S { owner, work := w :: ws } b).map _ = _
  rw [hadvance]
  rfl

/-- By induction over the subscribers that are left. -/
theorem exec_subscribers (owner : Option SessionRef) (this : SessionRef) (msg : PacketRef)
    (subs : Subscribers) :
    ∀ {b b' : Broker σ},
      rounds (Session.sendToSubcriberRound cfg this msg) subs b = (.ok (), b') → ∃ n,
        (system cfg S).exec (List.replicate n (.advance 0))
          { broker := b, goroutines := [{ owner, work := [.subscribers this msg subs] }] } =
            some { broker := b', goroutines := [] } := by
  induction subs with
  | nil =>
    intro b b' h
    obtain rfl : b = b' := congrArg Prod.snd h
    exact ⟨2, rfl⟩
  | cons v subs ih =>
    intro b b' h
    obtain ⟨go, b₁, hgo, hrest⟩ := bind_eq_ok h
    have hround : (Work.subscribers this msg (v :: subs)).round cfg S b = (.ok go, b₁) := hgo
    cases go with
    | true =>
      obtain ⟨n, hn⟩ := ih hrest
      refine ⟨n + 1, ?_⟩
      rw [List.replicate_succ, StepSystem.exec_cons (step_advance_next hround)]
      exact hn
    | false =>
      obtain rfl : b₁ = b' := congrArg Prod.snd hrest
      refine ⟨2, ?_⟩
      rw [List.replicate_succ, StepSystem.exec_cons (step_advance_break hround)]
      rfl

/-- A handler's forwarding is its start and then the loop over the subscribers. -/
theorem exec_forward (owner : Option SessionRef) {forwarded : Option PacketRef}
    (h : Session.forward cfg order s forwarded b = (.ok (), b')) : ∃ work b₁ n,
      forwardStart order s forwarded b = (.ok work, b₁) ∧
      (system cfg S).exec (List.replicate n (.advance 0))
        { broker := b₁, goroutines := [{ owner, work }] } =
          some { broker := b', goroutines := [] } := by
  cases forwarded with
  | none =>
    obtain rfl : b = b' := congrArg Prod.snd h
    exact ⟨[], b, 1, rfl, rfl⟩
  | some msg =>
    rw [Session.forward, bind_run_ok (session_run s b)] at h
    rw [forwardStart, bind_run_ok (session_run s b)]
    by_cases hserver : (b.sessions s).isServer = true
    · rw [if_pos hserver] at h
      obtain ⟨subs, b₁, hstart, hloop⟩ := bind_eq_ok h
      obtain ⟨n, hn⟩ := exec_subscribers (S := S) owner s msg subs hloop
      refine ⟨[.subscribers s msg subs], b₁, n, ?_, hn⟩
      rw [if_pos hserver, bind_run_ok hstart]
      rfl
    · rw [if_neg hserver] at h
      obtain ⟨p, b₁, hp, hcall⟩ := bind_eq_ok h
      refine ⟨[], b', 1, ?_, rfl⟩
      rw [if_neg hserver, bind_run_ok hp, bind_run_ok hcall]
      rfl

/-- `recvPacket` is what a round of `recvRun` does when nothing comes between its steps. -/
theorem exec_recvPacket {p : Inbound}
    (h : Session.recvPacket cfg S order s p.1 b = (.ok (), b')) : ∃ n,
      (system cfg S).exec (.recvPacket s p order :: List.replicate n (.advance 0))
        { broker := b, goroutines := [] } = some { broker := b', goroutines := [] } := by
  obtain ⟨⟨⟩, b₁, hread, hrecv⟩ := bind_eq_ok h
  rw [Session.recvMsg, bind_run_ok (session_run s b₁)] at hrecv
  have hstart : recvStart cfg S order s p.1 b = (if (b₁.sessions s).clostep ≠ .running then pure []
      else do
        let msg ← newPacket p.1
        let handled ← Session.procFrontRemoteMsg cfg S s msg p.1
        forwardStart order s handled.forwarded : GoM σ (List Work)) b₁ := by
    rw [recvStart, bind_run_ok hread, bind_run_ok (session_run s b₁)]
  by_cases hclostep : (b₁.sessions s).clostep ≠ .running
  · rw [if_pos hclostep] at hrecv hstart
    obtain rfl : b₁ = b' := congrArg Prod.snd hrecv
    refine ⟨1, ?_⟩
    rw [StepSystem.exec_cons (step_recvPacket hstart)]
    rfl
  · rw [if_neg hclostep] at hrecv hstart
    obtain ⟨msg, b₂, hnew, hhandle⟩ := bind_eq_ok hrecv
    obtain ⟨handled, b₃, hproc, hforward⟩ := bind_eq_ok hhandle
    obtain ⟨work, b₄, n, hwork, hn⟩ := exec_forward (S := S) (some s) hforward
    rw [bind_run_ok hnew, bind_run_ok hproc, hwork] at hstart
    refine ⟨n, ?_⟩
    rw [StepSystem.exec_cons (step_recvPacket hstart)]
    exact hn

end

end Process
end MqttBroker
