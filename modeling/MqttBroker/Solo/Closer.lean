import MqttBroker.Solo.Steps

/-!
# The closer

`Session.Close` and `Channel.Close` run in goroutine 3, and what they have done so far can be
told from the operation they come to next. `Channel.Close` takes a channel that has stopped
for one that it has closed before: where the send loop has died of a write error it returns
at once, and the connection stays open. Where it finds the channel running, it closes the
connection, decrements `OpenedFiles` once and waits for both loops.
-/

namespace MqttBroker.Solo

variable {cfg : Config}

/-! ## One goroutine closes -/

/-- An operation of `Close`. -/
def EndOp.closes : EndOp → Bool
  | loadClostep | storeClosed | closePedding | loadStoped | stopChannel | closeConn
  | openedFiles | stopSend | waitSend | stopRecv | waitRecv | loadConnected
  | loadConnectedZero | closeReturned => true
  | _ => false

def Op.closes : Op → Bool
  | .msg _ => false
  | .stop o => o.closes

/-- No goroutine but 3 is in `Close`. -/
structure ClosesAlone (s : Solo) : Prop where
  exists_closer : 3 < s.goroutines.length
  others : ∀ i ≠ 3, ∀ code, s.goroutines[i]? = some code → ∀ o ∈ code, o.closes = false

/-- `Close` is not entered by another operation. -/
theorem EndOp.Ran.closes {x : Outbox} {f f' : Flags} {o : EndOp} {next : List Op}
    {spawned : Pool Op} (h : Ran x f o next spawned f') (ho : o.closes = false) :
    ∀ o' ∈ next, o'.closes = false := by
  cases h with
  | received cleared _ _ =>
    intro o' ho'
    cases o' with
    | msg o' => rfl
    | stop o' =>
      obtain ⟨_, rfl⟩ | ⟨_, rfl⟩ | ⟨rfl, -⟩ := stop_mem_procFrontRemoteMsg ho'
      · rfl
      · rfl
      · rfl
  | onTick timedOut _ =>
    cases timedOut with
    | _ => simp [EndOp.closes, Op.closes]
  | clientTimeout l _ => simp [Op.closes]
  | _ => simp_all [EndOp.closes, Op.closes]

/-- Goroutine 3 enters `Close`, or does its next operation. -/
theorem closer_of_step {s s' : Solo} {t : Solo.Turn} (h : Solo.step cfg t s = some s')
    (ht : t.goroutine = some 3) :
    (s.goroutines[3]? = some [] ∧ s.flags.recvLoop.started = true ∧ s'.outbox = s.outbox ∧
      s'.flags = s.flags ∧ s'.goroutines = s.goroutines.set 3 [.stop .loadClostep]) ∨
    ∃ o code new spawned, s.goroutines[3]? = some (o :: code) ∧ t = .run 3 ∧
      s.runOp cfg o = some (new, spawned, s'.outbox, s'.flags) ∧
      s'.goroutines = s.goroutines.set 3 (new ++ code) ++ spawned := by
  cases t with
  | close =>
    rw [Solo.step] at h
    split at h
    · next hs =>
      obtain ⟨hi, rfl⟩ := begin_eq_some h
      exact .inl ⟨hi, hs, rfl, rfl, rfl⟩
    · exact absurd h (by simp)
  | run i =>
    obtain rfl := Option.some.inj ht
    rw [Solo.step] at h
    split at h
    · next o code hi =>
      obtain ⟨r, hr, rfl⟩ := Option.map_eq_some_iff.mp h
      exact .inr ⟨o, code, r.1, r.2.1, hi, rfl, hr, rfl⟩
    · exact absurd h (by simp)
  | _ => exact absurd ht (by simp [Turn.goroutine])

theorem Begun.closes {i : ℕ} {code : List Op} (h : Begun i code) (hi : i ≠ 3) :
    ∀ o ∈ code, o.closes = false := by
  cases h with
  | close => exact absurd rfl hi
  | _ => simp [Op.closes, EndOp.closes]

theorem closesAlone_step {s s' : Solo} {t : Solo.Turn} (hs : ClosesAlone s)
    (h : Solo.step cfg t s = some s') : ClosesAlone s' := by
  obtain ⟨_, _, -, hturned⟩ := turned_of_step h
  refine ⟨lt_of_lt_of_le hs.exists_closer hturned.length_le, fun i hi code hcode => ?_⟩
  rcases code_of_step h hcode with ⟨-, hsame⟩ | hbegun | ⟨o, rest, new, spawned, -, hold, hrun, rfl⟩
  · exact hs.others i hi code hsame
  · exact hbegun.closes hi
  · obtain ⟨hfirst, hrest⟩ := List.forall_mem_cons.mp (hs.others i hi _ hold)
    refine List.forall_mem_append.mpr ⟨?_, hrest⟩
    cases o with
    | msg o =>
      obtain ⟨l, -, rfl, -, -⟩ := runOp_msg hrun
      exact List.forall_mem_map.mpr fun o _ => rfl
    | stop o => exact (runOp_stop hrun).1.closes hfirst

/-! ## What the others do meanwhile -/

/-- What the closer has done, and what it waits for, is not undone by others. -/
structure Flags.Drifts (f f' : Flags) : Prop where
  isServer : f'.isServer = f.isServer
  isClosed : f'.isClosed → f.isClosed
  isStoped : f.isStoped = true → f'.isStoped = true
  peddingClosed : f'.peddingClosed = f.peddingClosed
  connClosed : f'.connClosed = f.connClosed
  openedFiles : f'.openedFiles = f.openedFiles
  count : f'.log.count .openedFiles = f.log.count .openedFiles
  returned : .closeReturned ∈ f'.log ↔ .closeReturned ∈ f.log
  started : f'.recvLoop.started = f.recvLoop.started
  sendLoop : f'.sendLoop.running → f.sendLoop.running
  recvLoop : f'.recvLoop.running → f.recvLoop.running

theorem Flags.Drifts.refl (f : Flags) : f.Drifts f where
  isServer := rfl
  isClosed := id
  isStoped := id
  peddingClosed := rfl
  connClosed := rfl
  openedFiles := rfl
  count := rfl
  returned := Iff.rfl
  started := rfl
  sendLoop := id
  recvLoop := id

theorem Flags.Drifts.note {ev : EndEvent} (f : Flags) (h : ev ≠ .openedFiles)
    (h' : ev ≠ .closeReturned) : f.Drifts (f.note ev) :=
  { Flags.Drifts.refl f with
    count := List.count_cons_of_ne h
    returned := List.mem_cons.trans ⟨fun hm => hm.resolve_left (Ne.symm h'), .inr⟩ }

theorem EndOp.Ran.drifts {x : Outbox} {f f' : Flags} {o : EndOp} {next : List Op}
    {spawned : Pool Op} (h : Ran x f o next spawned f') (ho : o.closes = false) :
    f.Drifts f' := by
  cases h with
  | disconnected | readFailed | tellPing | writeFailed | publishWill =>
    exact .note f (by simp) (by simp)
  | storeClosing k => exact { Flags.Drifts.refl f with isClosed := by simp }
  | storeConnected | setWill | storeException => exact { Flags.Drifts.refl f with }
  | recvExit => exact { Flags.Drifts.refl f with recvLoop := by simp }
  | sendExit => exact { Flags.Drifts.refl f with sendLoop := by simp }
  | storeStoped => exact { Flags.Drifts.refl f with isStoped := fun _ => rfl }
  | closedAlready | loadClostep | storeClosed | closePedding | channelStoped | channelRuns
  | stopChannel | closeConn | openedFiles | stopSend | sendOver | waitSend | stopRecv | recvOver
  | waitRecv | serverClosed | clientConnected | clientNotConnected | connectTimeout
  | connectRefused | closeReturned => exact absurd ho Bool.false_ne_true.symm
  | _ => exact .refl f

/-- The flags after `HandleConnection`. -/
def Flags.handled (f : Flags) : Flags :=
  { f with
    openedFiles := f.openedFiles + 1
    recvLoop := { started := true }
    sendLoop := { started := true } }

theorem Exchange.drifts {s : Solo} {t : Solo.Turn} {old new : List Op} {x : Outbox} {f : Flags}
    (h : Exchange cfg s t old new x f) (hold : ∀ o ∈ old, o.closes = false) :
    s.flags.Drifts f ∨ s.flags.recvLoop.started = false ∧ f = s.flags.handled := by
  cases h with
  | stop _ hrun =>
    exact .inl ((EndOp.ran_of_run hrun).drifts (hold _ (List.mem_singleton_self _)))
  | start hs => exact .inr ⟨hs, rfl⟩
  | _ => exact .inl (.refl _)

/-- A turn of another goroutine leaves the closer where it is. -/
theorem drifts_of_step {s s' : Solo} {t : Solo.Turn} (hs : ClosesAlone s)
    (h : Solo.step cfg t s = some s') (ht : t.goroutine ≠ some 3) :
    s'.goroutines[3]? = s.goroutines[3]? ∧
      (s.flags.Drifts s'.flags ∨
        s.flags.recvLoop.started = false ∧ s'.flags = s.flags.handled) := by
  obtain ⟨old, new, hx, hturned⟩ := turned_of_step h
  refine ⟨hturned.code_of_ne hs.exists_closer ht, hx.drifts fun o ho => ?_⟩
  obtain ⟨j, code, hj, hcode, hmem⟩ := hturned.mem_old ho
  exact hs.others j (fun h => ht (h ▸ hj)) code hcode o hmem

/-! ## What the closer has done -/

/-- Nothing is released yet, and `Close` has not returned. -/
structure Flags.Fresh (f : Flags) : Prop where
  count : f.log.count .openedFiles = 0
  returned : .closeReturned ∉ f.log

/-- The connection is closed and taken off the counter. -/
structure Flags.Cut (f : Flags) : Prop where
  peddingClosed : f.peddingClosed = true
  connClosed : f.connClosed = true
  count : f.log.count .openedFiles = 1

/-- Nothing of the connection is left. -/
structure Flags.Released (f : Flags) : Prop extends f.Cut where
  sendLoop : ¬ f.sendLoop.running
  recvLoop : ¬ f.recvLoop.running

/-- What has been done when the closer comes to an operation. A second `Close` comes as far as
`closePedding`, where it panics. -/
def EndOp.Stage (f : Flags) : EndOp → Prop
  | loadClostep => (f.peddingClosed = false ∧ ¬ f.isClosed ∧ f.Fresh) ∨ f.Released
  | storeClosed | closePedding => (f.peddingClosed = false ∧ f.Fresh) ∨ f.Released
  | loadStoped | stopChannel | closeConn => f.peddingClosed = true ∧ f.Fresh
  | openedFiles => f.peddingClosed = true ∧ f.connClosed = true ∧ f.Fresh
  | stopSend | waitSend => f.Cut ∧ .closeReturned ∉ f.log
  | stopRecv | waitRecv => (f.Cut ∧ ¬ f.sendLoop.running) ∧ .closeReturned ∉ f.log
  | loadConnected | loadConnectedZero | closeReturned => f.Released
  | _ => False

/-- The code of the closer, and what has been done. -/
inductive Closing (f : Flags) : List Op → Prop
  | idle : EndOp.Stage f .loadClostep → Closing f []
  | next {o : EndOp} : o.Stage f → Closing f [.stop o]
  /-- `Close` completes a handshake token. -/
  | last (l : List MsgOp) : f.Released → Closing f (l.map .msg ++ [.stop .closeReturned])

namespace Flags.Drifts

variable {f f' : Flags}

theorem fresh (h : f.Drifts f') (hf : f.Fresh) : f'.Fresh where
  count := h.count.trans hf.count
  returned hm := hf.returned (h.returned.mp hm)

theorem cut (h : f.Drifts f') (hf : f.Cut) : f'.Cut where
  peddingClosed := h.peddingClosed.trans hf.peddingClosed
  connClosed := h.connClosed.trans hf.connClosed
  count := h.count.trans hf.count

theorem released (h : f.Drifts f') (hf : f.Released) : f'.Released where
  toCut := h.cut hf.toCut
  sendLoop hr := hf.sendLoop (h.sendLoop hr)
  recvLoop hr := hf.recvLoop (h.recvLoop hr)

theorem stage (h : f.Drifts f') {o : EndOp} (ho : o.Stage f) : o.Stage f' := by
  have hp := h.peddingClosed
  have hreturned : .closeReturned ∉ f.log → .closeReturned ∉ f'.log := mt h.returned.mp
  cases o with
  | loadClostep =>
    exact ho.imp (fun ⟨hopen, hc, hf⟩ => ⟨hp.trans hopen, mt h.isClosed hc, h.fresh hf⟩) h.released
  | storeClosed | closePedding =>
    exact ho.imp (fun ⟨hopen, hf⟩ => ⟨hp.trans hopen, h.fresh hf⟩) h.released
  | loadStoped | stopChannel | closeConn => exact ⟨hp.trans ho.1, h.fresh ho.2⟩
  | openedFiles => exact ⟨hp.trans ho.1, h.connClosed.trans ho.2.1, h.fresh ho.2.2⟩
  | stopSend | waitSend => exact ⟨h.cut ho.1, hreturned ho.2⟩
  | stopRecv | waitRecv =>
    exact ⟨⟨h.cut ho.1.1, mt h.sendLoop ho.1.2⟩, hreturned ho.2⟩
  | loadConnected | loadConnectedZero | closeReturned => exact h.released ho
  | _ => exact ho.elim

theorem closing (h : f.Drifts f') {code : List Op} (hc : Closing f code) : Closing f' code := by
  cases hc with
  | idle hf => exact .idle (h.stage hf)
  | next ho => exact .next (h.stage ho)
  | last l hf => exact .last l (h.released hf)

end Flags.Drifts

/-- One operation of the closer, which finds the channel running. -/
theorem EndOp.Ran.closing {x : Outbox} {f f' : Flags} {o : EndOp} {next : List Op}
    {spawned : Pool Op} (h : Ran x f o next spawned f') (ho : o.Stage f)
    (hok : o = .loadStoped → f.isStoped = false) :
    Closing f' next ∧ (.closeReturned ∈ f'.log → f'.Released) := by
  cases h with
  | closedAlready hc =>
    have hf := ho.resolve_left fun hf => hf.2.1 hc
    exact ⟨.next hf, fun _ => hf⟩
  | loadClostep hc =>
    exact ⟨.next (ho.imp (fun hf => ⟨hf.1, hf.2.2⟩) id),
      fun hm => ho.resolve_left fun hf => hf.2.2.returned hm⟩
  | storeClosed =>
    have hd : f.Drifts (f.note .closed) := .note f (by simp) (by simp)
    rcases ho with ⟨hopen, hf⟩ | hf
    · have hf' := hd.fresh hf
      exact ⟨.next (.inl ⟨hopen, ⟨hf'.count, hf'.returned⟩⟩), fun hm => absurd hm hf'.returned⟩
    · have hf' := hd.released hf
      have hnew : ({ f with clostep := .closed }.note .closed).Released :=
        ⟨⟨hf'.peddingClosed, hf'.connClosed, hf'.count⟩, hf'.sendLoop, hf'.recvLoop⟩
      exact ⟨.next (.inr hnew), fun _ => hnew⟩
  | closePedding hopen =>
    have hf : f.Fresh := (ho.resolve_right fun hf =>
      absurd (hf.peddingClosed.symm.trans hopen) Bool.false_ne_true.symm).2
    exact ⟨.next ⟨rfl, ⟨hf.count, hf.returned⟩⟩, fun hm => absurd hm hf.returned⟩
  | channelStoped hs => exact absurd ((hok rfl).symm.trans hs) Bool.false_ne_true
  | channelRuns hs => exact ⟨.next ho, fun hm => absurd hm ho.2.returned⟩
  | stopChannel =>
    exact ⟨.next ⟨ho.1, ⟨ho.2.count, ho.2.returned⟩⟩, fun hm => absurd hm ho.2.returned⟩
  | closeConn =>
    exact ⟨.next ⟨ho.1, rfl, ⟨ho.2.count, ho.2.returned⟩⟩, fun hm => absurd hm ho.2.returned⟩
  | openedFiles =>
    obtain ⟨hpedding, hconn, hf⟩ := ho
    have hnot : .closeReturned ∉ ({ f with openedFiles := f.openedFiles - 1 }.note
        .openedFiles).log := by
      simpa [Flags.note] using hf.returned
    have hcount : ({ f with openedFiles := f.openedFiles - 1 }.note .openedFiles).log.count
        EndEvent.openedFiles = 1 := by
      rw [Flags.note, List.count_cons_self, hf.count]
    exact ⟨.next ⟨⟨hpedding, hconn, hcount⟩, hnot⟩, fun hm => absurd hm hnot⟩
  | stopSend _ =>
    obtain ⟨hcut, hnot⟩ := ho
    exact ⟨.next ⟨⟨hcut.peddingClosed, hcut.connClosed, hcut.count⟩, hnot⟩,
      fun hm => absurd hm hnot⟩
  | sendOver hr => exact ⟨.next ⟨⟨ho.1, hr⟩, ho.2⟩, fun hm => absurd hm ho.2⟩
  | waitSend hr => exact ⟨.next ⟨⟨ho.1, hr⟩, ho.2⟩, fun hm => absurd hm ho.2⟩
  | stopRecv _ =>
    obtain ⟨⟨hcut, hsend⟩, hnot⟩ := ho
    exact ⟨.next ⟨⟨⟨hcut.peddingClosed, hcut.connClosed, hcut.count⟩, hsend⟩, hnot⟩,
      fun hm => absurd hm hnot⟩
  | recvOver hr | waitRecv hr =>
    exact ⟨.next ⟨ho.1.1, ho.1.2, hr⟩, fun hm => absurd hm ho.2⟩
  | serverClosed _ | clientNotConnected _ _ | connectRefused _ => exact ⟨.next ho, fun _ => ho⟩
  | clientConnected _ _ => exact ⟨.last [.completeDisconnect] ho, fun _ => ho⟩
  | connectTimeout _ => exact ⟨.last [.connectErr none] ho, fun _ => ho⟩
  | closeReturned =>
    have hnew : (f.note .closeReturned).Released :=
      ⟨⟨ho.peddingClosed, ho.connClosed, (List.count_cons_of_ne (by simp)).trans ho.count⟩,
        ho.sendLoop, ho.recvLoop⟩
    exact ⟨.idle (.inr hnew), fun _ => hnew⟩
  | _ => exact ho.elim

/-- The next operation of the closer, whatever it is. -/
theorem closing_run {s : Solo} {o : Op} {code new : List Op} {spawned : Pool Op} {x : Outbox}
    {f : Flags} (hc : Closing s.flags (o :: code))
    (hreturned : .closeReturned ∈ s.flags.log → s.flags.Released)
    (hrun : s.runOp cfg o = some (new, spawned, x, f))
    (hok : o = .stop .loadStoped → s.flags.isStoped = false) :
    Closing f (new ++ code) ∧ (.closeReturned ∈ f.log → f.Released) := by
  generalize hl : o :: code = l at hc
  cases hc with
  | idle _ => exact absurd hl (by simp)
  | @next o' ho =>
    obtain ⟨rfl, rfl⟩ := List.cons.inj hl
    rw [List.append_nil]
    exact (runOp_stop hrun).1.closing ho fun h => hok (congrArg Op.stop h)
  | last l hf =>
    cases l with
    | nil =>
      obtain ⟨rfl, rfl⟩ := List.cons.inj hl
      rw [List.append_nil]
      exact (runOp_stop hrun).1.closing hf (by simp)
    | cons o' l =>
      obtain ⟨rfl, rfl⟩ := List.cons.inj hl
      obtain ⟨new, -, rfl, -, rfl⟩ := runOp_msg hrun
      have hlast := Closing.last (new ++ l) hf
      rw [List.map_append, List.append_assoc] at hlast
      exact ⟨hlast, hreturned⟩

/-! ## Runs -/

/-- `Channel.Close` finds the channel running. -/
def ChannelRuns (s : Solo) (t : Solo.Turn) : Prop :=
  .loadStoped ∈ t.endOp s → s.flags.isStoped = false

instance (s : Solo) (t : Solo.Turn) : Decidable (ChannelRuns s t) :=
  inferInstanceAs (Decidable (_ → _))

structure Closes (s : Solo) : Prop extends ClosesAlone s where
  code : ∃ code, s.goroutines[3]? = some code ∧ Closing s.flags code
  unstarted : s.flags.recvLoop.started = false →
    s.goroutines[3]? = some [] ∧ s.flags.peddingClosed = false
  returned : .closeReturned ∈ s.flags.log → s.flags.Released
  counter : s.flags.openedFiles =
    (if s.flags.recvLoop.started then 1 else 0) - (s.flags.log.count .openedFiles : ℤ)

/-- Only `Close` decrements the counter. -/
theorem EndOp.Ran.counter {x : Outbox} {f f' : Flags} {o : EndOp} {next : List Op}
    {spawned : Pool Op} (h : Ran x f o next spawned f') :
    f'.recvLoop.started = f.recvLoop.started ∧
      f'.openedFiles + (f'.log.count .openedFiles : ℤ) =
        f.openedFiles + (f.log.count .openedFiles : ℤ) := by
  have hnote : ∀ ev : EndEvent, ev ≠ .openedFiles →
      (f.note ev).log.count .openedFiles = f.log.count .openedFiles :=
    fun ev hev => List.count_cons_of_ne hev
  cases h with
  | openedFiles =>
    have hcount : ({ f with openedFiles := f.openedFiles - 1 }.note .openedFiles).log.count
        EndEvent.openedFiles = f.log.count .openedFiles + 1 := List.count_cons_self
    refine ⟨rfl, ?_⟩
    rw [hcount]
    show f.openedFiles - 1 + _ = _
    omega
  | disconnected | readFailed | tellPing | writeFailed | publishWill | closeReturned =>
    exact ⟨rfl, by rw [hnote _ (by simp)]; rfl⟩
  | storeClosed =>
    exact ⟨rfl, congrArg (fun n : ℕ => f.openedFiles + (n : ℤ)) (hnote .closed (by simp))⟩
  | _ => exact ⟨rfl, rfl⟩

theorem Closing.stage_of_nil {f : Flags} (h : Closing f []) : EndOp.Stage f .loadClostep := by
  generalize hl : ([] : List Op) = l at h
  cases h with
  | idle hf => exact hf
  | next _ => exact absurd hl (by simp)
  | last l _ => exact absurd hl (by simp)

theorem closes_step {s s' : Solo} {t : Solo.Turn} (hs : Closes s) (hok : ChannelRuns s t)
    (h : Solo.step cfg t s = some s') : Closes s' := by
  obtain ⟨code, hcode, hclosing⟩ := hs.code
  have halone := closesAlone_step hs.toClosesAlone h
  by_cases ht : t.goroutine = some 3
  · rcases closer_of_step h ht with ⟨hidle, hstarted, -, hflags, hp⟩ |
      ⟨o, rest, new, spawned, hrest, rfl, hrun, hp⟩
    · -- `Close` is called
      obtain rfl := Option.some.inj (hcode.symm.trans hidle)
      have hnew : s'.goroutines[3]? = some [.stop .loadClostep] := by
        rw [hp, List.getElem?_set_self hs.exists_closer]
      refine ⟨halone, ⟨_, hnew, ?_⟩, ?_, ?_, ?_⟩
      · rw [hflags]
        exact .next hclosing.stage_of_nil
      · rw [hflags, hstarted]
        exact fun h => absurd h Bool.false_ne_true.symm
      · rw [hflags]
        exact hs.returned
      · rw [hflags]
        exact hs.counter
    · -- it does its next operation
      obtain rfl := Option.some.inj (hcode.symm.trans hrest)
      have hop : ∀ o', o = .stop o' → (Solo.Turn.run 3).endOp s = some o' := by
        rintro o' rfl
        exact Solo.Turn.endOp_run (by rw [Solo.nextOp, hrest]; rfl)
      obtain ⟨hnew, hreturned⟩ := closing_run hclosing hs.returned hrun fun ho => hok (hop _ ho)
      have hcounter : s'.flags.recvLoop.started = s.flags.recvLoop.started ∧
          s'.flags.openedFiles + (s'.flags.log.count .openedFiles : ℤ) =
            s.flags.openedFiles + (s.flags.log.count .openedFiles : ℤ) := by
        cases o with
        | msg o =>
          obtain ⟨-, -, -, -, hflags⟩ := runOp_msg hrun
          rw [hflags]
          exact ⟨rfl, rfl⟩
        | stop o => exact (runOp_stop hrun).1.counter
      have hstarted : s.flags.recvLoop.started ≠ false := fun hnot =>
        absurd (Option.some.inj ((hs.unstarted hnot).1.symm.trans hrest)) (by simp)
      refine ⟨halone, ⟨new ++ rest, ?_, hnew⟩, ?_, hreturned, ?_⟩
      · have hlt : 3 < (s.goroutines.set 3 (new ++ rest)).length := by
          rw [List.length_set]
          exact hs.exists_closer
        rw [hp, List.getElem?_append_left hlt, List.getElem?_set_self hs.exists_closer]
      · rw [hcounter.1]
        exact fun hnot => absurd hnot hstarted
      · have hbefore := hs.counter
        rw [hcounter.1]
        omega
  · -- another goroutine has its turn, or the session is started
    obtain ⟨hsame, hd | ⟨hnot, hhandled⟩⟩ := drifts_of_step hs.toClosesAlone h ht
    · refine ⟨halone, ⟨code, hsame.trans hcode, hd.closing hclosing⟩, ?_, ?_, ?_⟩
      · rw [hd.started, hsame, hd.peddingClosed]
        exact hs.unstarted
      · exact fun hm => hd.released (hs.returned (hd.returned.mp hm))
      · rw [hd.openedFiles, hd.started, hd.count]
        exact hs.counter
    · obtain ⟨hidle, hopen⟩ := hs.unstarted hnot
      obtain rfl := Option.some.inj (hcode.symm.trans hidle)
      have hstage := hclosing.stage_of_nil
      have hnone : ¬ s.flags.Released := fun hf =>
        absurd (hf.peddingClosed.symm.trans hopen) Bool.false_ne_true.symm
      obtain ⟨-, hc, hf⟩ := hstage.resolve_right hnone
      have hcounter := hs.counter
      rw [hnot, hf.count] at hcounter
      refine ⟨halone, ⟨[], hsame.trans hidle, ?_⟩, ?_, ?_, ?_⟩
      · rw [hhandled]
        exact .idle (.inl ⟨hopen, hc, ⟨hf.count, hf.returned⟩⟩)
      · rw [hhandled]
        exact fun h => absurd h Bool.false_ne_true.symm
      · rw [hhandled]
        exact fun hm => absurd hm hf.returned
      · rw [hhandled]
        show s.flags.openedFiles + 1 = 1 - ((s.flags.log.count .openedFiles : ℕ) : ℤ)
        rw [hcounter, hf.count]
        rfl

theorem closesAlone_initial (isServer : Bool) (now : ℤ) :
    ClosesAlone (Solo.initial isServer now) where
  exists_closer := by simp [Solo.initial]
  others i _ code hcode o ho := by
    have hmem := List.mem_of_getElem? hcode
    simp only [Solo.initial, List.mem_cons, List.not_mem_nil, or_false, or_self] at hmem
    exact absurd ho (by simp [hmem])

theorem closes_initial (isServer : Bool) (now : ℤ) : Closes (Solo.initial isServer now) where
  toClosesAlone := closesAlone_initial isServer now
  code := ⟨[], rfl, .idle (.inl ⟨rfl, by simp [Solo.initial], ⟨rfl, by simp [Solo.initial]⟩⟩)⟩
  unstarted _ := ⟨rfl, rfl⟩
  returned hm := absurd hm (by simp [Solo.initial])
  counter := rfl

/-- In a run in which `Channel.Close` finds the channel running, a `Close` that has returned
has released the connection, for good. -/
theorem close_releases {s : Solo} (h : (Solo.system cfg).Reach ChannelRuns s)
    (hreturned : .closeReturned ∈ s.flags.log) :
    s.flags.connClosed = true ∧ s.flags.log.count .openedFiles = 1 ∧ s.flags.openedFiles = 0 ∧
      ¬ s.flags.sendLoop.running ∧ ¬ s.flags.recvLoop.running := by
  have hs : Closes s := by
    refine h.invariant (I := Closes) ?_ fun s t s' hs hok hstep => closes_step hs hok hstep
    rintro s ⟨isServer, now, rfl⟩
    exact closes_initial isServer now
  have hf := hs.returned hreturned
  refine ⟨hf.connClosed, hf.count, ?_, hf.sendLoop, hf.recvLoop⟩
  have hstarted : s.flags.recvLoop.started ≠ false := fun hnot =>
    absurd (hf.peddingClosed.symm.trans (hs.unstarted hnot).2) Bool.false_ne_true.symm
  rw [hs.counter, if_pos (by simpa using hstarted), hf.count]
  rfl

/-- A connected session is closed, and both loops come to their end. -/
def closing : List Solo.Turn :=
  Solo.connecting ++ [.close] ++ Solo.runs 3 8 ++ [.sendRound true] ++ Solo.runs 1 2 ++
    Solo.runs 3 2 ++ [.recvError] ++ Solo.runs 0 4 ++ Solo.runs 3 3

theorem close_releases_closing : ∃ s, (Solo.system {}).Reach ChannelRuns s ∧
    s.flags.connClosed = true ∧ s.flags.log.count .openedFiles = 1 ∧ s.flags.openedFiles = 0 ∧
      ¬ s.flags.sendLoop.running ∧ ¬ s.flags.recvLoop.running := by
  have hok : (Solo.system {}).checkAll (fun s t => decide (ChannelRuns s t)) closing
      (Solo.initial true 0) = true := by
    decide
  have hend : ((Solo.system {}).exec closing (Solo.initial true 0)).any (fun s =>
      EndEvent.closeReturned ∈ s.flags.log) = true := by
    decide
  obtain ⟨s, hs, hc⟩ := StepSystem.exists_reach_of_any (Solo.initial_init {} true 0)
    (StepSystem.along_of_check (fun _ _ h => of_decide_eq_true h) hok) hend
  exact ⟨s, hs, close_releases hs (of_decide_eq_true hc)⟩

/-- The CONNACK cannot be written, the send loop ends, and then the session is closed. -/
def closingAfterWriteError : List Solo.Turn :=
  Solo.connecting ++ [.sendRound false] ++ Solo.runs 1 3 ++ [.close] ++ Solo.runs 3 6

theorem close_leaves_open : ¬ ∀ s, (Solo.system {}).Reachable s →
    .closeReturned ∈ s.flags.log →
    s.flags.connClosed = true ∧ s.flags.log.count .openedFiles = 1 ∧
      ¬ s.flags.sendLoop.running ∧ ¬ s.flags.recvLoop.running := by
  have hend : ((Solo.system {}).exec closingAfterWriteError (Solo.initial true 0)).any (fun s =>
      EndEvent.closeReturned ∈ s.flags.log ∧ s.flags.connClosed = false) = true := by
    decide
  intro hall
  obtain ⟨s, hs, hc⟩ :=
    StepSystem.exists_reachable_of_any (Solo.initial_init {} true 0) hend
  obtain ⟨hreturned, hopen⟩ := of_decide_eq_true hc
  exact absurd ((hall s hs hreturned).1.symm.trans hopen) Bool.false_ne_true.symm

end MqttBroker.Solo
