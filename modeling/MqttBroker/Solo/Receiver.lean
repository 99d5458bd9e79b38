import MqttBroker.Solo.Closer

/-!
# The receive loop

The receive loop handles one packet after the other, and no other goroutine comes to a handler.
For a CONNACK the handler stores `connected`, and only then comes to the connect token: what
it writes there is from the packet, and `connected` still says the same.
-/

namespace MqttBroker.Solo

variable {cfg : Config} {f f' : Flags} {x x' : Outbox}

/-! ## The handler of a CONNACK -/

/-- An operation of the receive loop on the way to `connected` or a connect token. -/
def Op.receives : Op → Bool
  | .stop (.recvMsg _ _) | .stop (.storeConnected _) | .msg (.connectErr (some _)) => true
  | _ => false

/-- An operation that handles a CONNACK, or may come to it. -/
def Op.answers : Op → Bool
  | .stop (.recvMsg _ _) | .msg (.connectErr (some _)) => true
  | _ => false

theorem Op.answers_eq_false {o : Op} (h : o.receives = false) : o.answers = false := by
  cases o with
  | msg o =>
    cases o with
    | connectErr code =>
      cases code with
      | none => rfl
      | some code => exact absurd h.symm Bool.false_ne_true
    | _ => rfl
  | stop o =>
    cases o with
    | recvMsg r cleared => exact absurd h.symm Bool.false_ne_true
    | _ => rfl

/-- The code of the receive loop: between its two operations on a CONNACK, `connected` says
what the return code says. -/
inductive Receiving (f : Flags) : List Op → Prop
  | recvMsg (r : PacketRef) (cleared : Bool) : Receiving f [.stop (.recvMsg r cleared)]
  | connack {connected : ℤ} {code : UInt8} : (0 < connected ↔ code = 0) →
      Receiving f [.stop (.storeConnected connected), .msg (.connectErr (some code))]
  | stored {code : UInt8} : (f.isConnected ↔ code = 0) →
      Receiving f [.msg (.connectErr (some code))]
  | other {l : List Op} : (∀ o ∈ l, o.answers = false) → Receiving f l

/-- Only the receive loop handles packets. -/
structure Receives (s : Solo) : Prop where
  others : ∀ i ≠ 0, ∀ code, s.goroutines[i]? = some code → ∀ o ∈ code, o.receives = false
  code : ∀ code, s.goroutines[0]? = some code → Receiving s.flags code

theorem Begun.receives {i : ℕ} {code : List Op} (h : Begun i code) :
    (∃ r cleared, i = 0 ∧ code = [.stop (.recvMsg r cleared)]) ∨
      ∀ o ∈ code, o.receives = false := by
  cases h with
  | recvPacket r cleared => exact .inl ⟨r, cleared, rfl, rfl⟩
  | _ => exact .inr (by simp [Op.receives])

/-- No operation of the outbound side leaves one that writes the error of a connect token. -/
theorem MsgOp.Ran.connectErr_notMem {o : MsgOp} {new : List MsgOp} (h : Ran cfg f x o new x')
    (code : Option UInt8) : .connectErr code ∉ new := by
  intro hmem
  cases h.follows hmem

/-- The handler of another packet than a CONNACK does not come to the connect token. -/
theorem answers_procFrontRemoteMsg (f : Flags) (r : PacketRef) (cleared : Bool)
    (p : ControlPacket) : (∃ m, p = .connack m) ∨
      ∀ o ∈ procFrontRemoteMsg f r cleared p, o.answers = false := by
  by_cases hconnack : ∃ m, p = .connack m
  · exact .inl hconnack
  · refine .inr fun o ho => ?_
    cases handles_of_mem ho with
    | connectErr hp => exact absurd ⟨_, hp⟩ hconnack
    | _ => rfl

section Receiver

variable {s s' : Solo} {t : Solo.Turn}

/-- Only `recvMsg` leaves an operation of a handler. -/
theorem runOp_receives {o : Op} {new : List Op} {spawned : Pool Op}
    (h : s.runOp cfg o = some (new, spawned, x, f)) (ho : ∀ r c, o ≠ .stop (.recvMsg r c)) :
    ∀ o' ∈ new, o'.receives = false := by
  cases o with
  | msg o =>
    obtain ⟨l, hran, rfl, -, -⟩ := runOp_msg h
    intro o' ho'
    obtain ⟨o₁, ho₁, rfl⟩ := List.mem_map.mp ho'
    cases o₁ with
    | connectErr code => exact absurd ho₁ (hran.connectErr_notMem code)
    | _ => rfl
  | stop o =>
    have hran := (runOp_stop h).1
    cases hran with
    | received cleared _ _ | disconnected cleared _ _ => exact absurd rfl (ho _ cleared)
    | onTick timedOut _ =>
      cases timedOut with
      | _ => simp [Op.receives]
    | clientTimeout l hl =>
      refine List.forall_mem_map.mpr fun o ho => ?_
      rw [List.mem_singleton.mp (hl ho)]
      rfl
    | _ => simp [Op.receives]

/-- `connected` is written by the handlers of the receive loop only. -/
theorem connected_of_step (h : Solo.step cfg t s = some s') :
    s'.flags.connected = s.flags.connected ∨
      ∃ i n, t = .run i ∧ s.nextOp i = some (.stop (.storeConnected n)) ∧
        s'.flags.connected = n ∧ s'.outbox = s.outbox := by
  obtain ⟨old, new, hx, -⟩ := exchange_of_step h
  generalize s'.outbox = x' at hx ⊢
  generalize s'.flags = f' at hx ⊢
  cases hx with
  | @stop i o r hnext hrun =>
    obtain ⟨next, spawned, f'⟩ := r
    have hran : EndOp.Ran s.outbox s.flags o next spawned f' := EndOp.ran_of_run hrun
    cases hran with
    | storeConnected n => exact .inr ⟨i, n, rfl, hnext, rfl, rfl⟩
    | _ => exact .inl rfl
  | _ => exact .inl rfl

theorem isConnected_of_step (hs : Receives s) (h : Solo.step cfg t s = some s')
    (ht : t.goroutine ≠ some 0) : s'.flags.connected = s.flags.connected := by
  rcases connected_of_step h with hsame | ⟨i, n, rfl, hnext, -, -⟩
  · exact hsame
  · obtain ⟨code, hcode, hhead⟩ := Option.bind_eq_some_iff.mp hnext
    have hi : i ≠ 0 := fun hi => ht (congrArg some hi)
    have hreceives := hs.others i hi code hcode _ (List.mem_of_head? hhead)
    exact absurd hreceives.symm Bool.false_ne_true

/-- One operation of the receive loop. -/
theorem Receiving.step {o : Op} {rest new : List Op} {spawned : Pool Op}
    (h : Receiving s.flags (o :: rest)) (hrun : s.runOp cfg o = some (new, spawned, x, f)) :
    Receiving f (new ++ rest) := by
  have hother : ∀ {l : List Op}, (∀ r c, o ≠ .stop (.recvMsg r c)) →
      (∀ o' ∈ l, o'.answers = false) → Receiving f (new ++ l) := by
    intro l ho hl
    refine .other (List.forall_mem_append.mpr ⟨fun o' ho' => ?_, hl⟩)
    exact Op.answers_eq_false (runOp_receives hrun ho o' ho')
  generalize hcode : o :: rest = code at h
  cases h with
  | recvMsg r cleared =>
    obtain ⟨rfl, rfl⟩ := List.cons.inj hcode
    have hran := (runOp_stop hrun).1
    rw [List.append_nil]
    cases hran with
    | recvIgnored _ _ _ => exact .other (by simp)
    | disconnected _ _ _ => exact .other (by simp [Op.answers])
    | received _ _ _ =>
      rcases answers_procFrontRemoteMsg s.flags r cleared (s.outbox.packet r) with
        ⟨m, hm⟩ | hanswers
      · rw [hm]
        refine .connack ?_
        split
        · next hpos =>
          have hne : m.returnCode ≠ 0 := fun h => by simp [h] at hpos
          exact iff_of_false (by omega) hne
        · next hpos => exact iff_of_true (by decide) (by simpa using hpos)
      · exact .other hanswers
  | connack hsign =>
    obtain ⟨rfl, rfl⟩ := List.cons.inj hcode
    have hran := (runOp_stop hrun).1
    cases hran with
    | storeConnected _ => exact .stored hsign
  | stored _ =>
    obtain ⟨rfl, rfl⟩ := List.cons.inj hcode
    exact hother (by simp) (by simp)
  | other hl =>
    have ho : ∀ r c, o ≠ .stop (.recvMsg r c) := by
      rintro r c rfl
      have := hl (.stop (.recvMsg r c)) (hcode ▸ List.mem_cons_self)
      exact absurd this.symm Bool.false_ne_true
    exact hother ho fun o' ho' => hl o' (hcode ▸ List.mem_cons_of_mem _ ho')

theorem receives_step (hs : Receives s) (h : Solo.step cfg t s = some s') : Receives s' where
  others i hi code hcode o ho := by
    rcases code_of_step h hcode with ⟨-, hsame⟩ | hbegun |
      ⟨o₀, rest, new, spawned, -, hold, hrun, rfl⟩
    · exact hs.others i hi code hsame o ho
    · rcases hbegun.receives with ⟨_, _, hzero, -⟩ | hreceives
      · exact absurd hzero hi
      · exact hreceives o ho
    · have hbefore := hs.others i hi _ hold
      rcases List.mem_append.mp ho with ho | ho
      · refine runOp_receives hrun (fun r c hrecv => ?_) o ho
        have hreceives := hbefore o₀ List.mem_cons_self
        rw [hrecv] at hreceives
        exact absurd hreceives.symm Bool.false_ne_true
      · exact hbefore o (List.mem_cons_of_mem _ ho)
  code code hcode := by
    rcases code_of_step h hcode with ⟨hne, hsame⟩ | hbegun |
      ⟨o₀, rest, new, spawned, -, hold, hrun, rfl⟩
    · have hconnected := isConnected_of_step hs h hne
      have hreceiving := hs.code code hsame
      cases hreceiving with
      | recvMsg r cleared => exact .recvMsg r cleared
      | connack hsign => exact .connack hsign
      | stored hsign => exact .stored (by rw [Flags.isConnected, hconnected]; exact hsign)
      | other hl => exact .other hl
    · rcases hbegun.receives with ⟨r, cleared, -, rfl⟩ | hreceives
      · exact .recvMsg r cleared
      · exact .other fun o ho => Op.answers_eq_false (hreceives o ho)
    · exact (hs.code _ hold).step hrun

theorem receives_initial (isServer : Bool) (now : ℤ) : Receives (Solo.initial isServer now) where
  others i _ code hcode o ho := by
    have hnil : ∀ code ∈ (Solo.initial isServer now).goroutines, code = [] := by
      simp [Solo.initial]
    rw [hnil code (List.mem_of_getElem? hcode)] at ho
    exact absurd ho (by simp)
  code code hcode := Option.some.inj hcode ▸ .other (by simp)

/-- When a handler comes to the connect token, `connected` says what the return code says. -/
theorem Receives.stored (hs : Receives s) {i : ℕ} {code : UInt8}
    (h : s.nextOp i = some (.msg (.connectErr (some code)))) :
    s.flags.isConnected ↔ code = 0 := by
  obtain ⟨l, hl, hhead⟩ := Option.bind_eq_some_iff.mp h
  obtain ⟨rest, rfl⟩ := List.head?_eq_some_iff.mp hhead
  have hi : i = 0 := by
    by_contra hi
    exact absurd (hs.others i hi _ hl _ List.mem_cons_self).symm Bool.false_ne_true
  subst hi
  have hreceiving := hs.code _ hl
  cases hreceiving with
  | stored hsign => exact hsign
  | other hother =>
    exact absurd (hother _ List.mem_cons_self).symm Bool.false_ne_true

end Receiver

end MqttBroker.Solo
