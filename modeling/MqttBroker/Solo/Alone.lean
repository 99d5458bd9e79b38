import MqttBroker.Solo.System

/-!
# A goroutine alone

What a goroutine does while the others wait: its operations one after the other, on the
outbox and the flags.
-/

namespace MqttBroker.Solo

variable {cfg : Config}

/-- `n` operations of a goroutine that starts no other: what it has left, the outbox and the
flags. -/
def alone (cfg : Config) : ℕ → List Op → Outbox → Flags → Option (List Op × Outbox × Flags)
  | 0, code, x, f => some (code, x, f)
  | _ + 1, [], _, _ => none
  | n + 1, o :: code, x, f =>
    match (⟨x, f, []⟩ : Solo).runOp cfg o with
    | some (new, [], x', f') => alone cfg n (new ++ code) x' f'
    | _ => none

theorem alone_msg {n : ℕ} {o : MsgOp} {new : List MsgOp} {code : List Op} {x x' : Outbox}
    {f : Flags} (h : o.run cfg f x = some (new, x')) :
    alone cfg (n + 1) (.msg o :: code) x f = alone cfg n (new.map .msg ++ code) x' f := by
  rw [alone, runOp, h]
  rfl

theorem alone_stop {n : ℕ} {o : EndOp} {new code : List Op} {x : Outbox} {f f' : Flags}
    (h : o.run x f = some { next := new, flags := f' }) :
    alone cfg (n + 1) (.stop o :: code) x f = alone cfg n (new ++ code) x f' := by
  rw [alone, runOp, h]
  rfl

/-- The turns of a goroutine are its operations. -/
theorem exec_runs {i n : ℕ} : ∀ {code code' : List Op} {s : Solo} {x : Outbox} {f : Flags},
    s.goroutines[i]? = some code →
    alone cfg n code s.outbox s.flags = some (code', x, f) →
    (Solo.system cfg).exec (Solo.runs i n) s =
      some ⟨x, f, s.goroutines.set i code'⟩ := by
  induction n with
  | zero =>
    intro code code' s x f hi h
    obtain ⟨rfl, hrest⟩ := Prod.mk.inj (Option.some.inj h)
    obtain ⟨rfl, rfl⟩ := Prod.mk.inj hrest
    obtain ⟨hlt, hget⟩ := List.getElem?_eq_some_iff.mp hi
    have hset : s.goroutines.set i code = s.goroutines := by
      rw [← hget, List.set_getElem_self]
    rw [hset]
    rfl
  | succ n ih =>
    intro code code' s x f hi h
    cases code with
    | nil => exact absurd h (by simp [alone])
    | cons o code =>
      rw [alone] at h
      split at h
      · next new x₁ f₁ hop =>
        have hstep : (Solo.system cfg).step (.run i) s =
            some ⟨x₁, f₁, s.goroutines.set i (new ++ code)⟩ := by
          show Solo.step cfg (.run i) s = _
          rw [Solo.step, hi]
          show Option.map _ ((⟨s.outbox, s.flags, []⟩ : Solo).runOp cfg o) = _
          rw [hop, Option.map_some, List.append_nil]
        have hlt : i < s.goroutines.length := (List.getElem?_eq_some_iff.mp hi).1
        have hi' : (s.goroutines.set i (new ++ code))[i]? = some (new ++ code) :=
          List.getElem?_set_self hlt
        have hrest := ih (s := ⟨x₁, f₁, s.goroutines.set i (new ++ code)⟩) hi' h
        rw [List.set_set] at hrest
        rw [Solo.runs, List.replicate_succ, StepSystem.exec_cons hstep]
        exact hrest
      · exact absurd h (by simp)

/-! ## Runs in stretches -/

/-- A turn, or the next operations of a goroutine that starts no other. -/
inductive Stretch
  | turn (t : Turn)
  | runs (i n : ℕ)

def Stretch.turns : Stretch → List Turn
  | turn t => [t]
  | runs i n => Solo.runs i n

/-- A stretch takes the goroutine out of the others once, and not for each operation: a long run
is evaluated this way. -/
def Stretch.step (cfg : Config) : Stretch → Solo → Option Solo
  | turn t, s => Solo.step cfg t s
  | runs i n, s =>
    s.goroutines[i]?.bind fun code =>
      (alone cfg n code s.outbox s.flags).map fun r =>
        ⟨r.2.1, r.2.2, s.goroutines.set i r.1⟩

def stretches (cfg : Config) : StepSystem Solo Stretch where
  init := (Solo.system cfg).init
  step := Stretch.step cfg

theorem Stretch.exec_turns {a : Stretch} {s s' : Solo} (h : a.step cfg s = some s') :
    (Solo.system cfg).exec a.turns s = some s' := by
  cases a with
  | turn t =>
    have hstep : (Solo.system cfg).step t s = some s' := h
    rw [turns, StepSystem.exec_cons hstep]
    rfl
  | runs i n =>
    obtain ⟨code, hi, hcode⟩ := Option.bind_eq_some_iff.mp h
    obtain ⟨⟨code', x, f⟩, halone, rfl⟩ := Option.map_eq_some_iff.mp hcode
    exact exec_runs hi halone

theorem exec_stretches {l : List Stretch} : ∀ {s s' : Solo},
    (stretches cfg).exec l s = some s' →
      (Solo.system cfg).exec (l.flatMap Stretch.turns) s = some s' := by
  induction l with
  | nil => exact id
  | cons a l ih =>
    intro s s' h
    obtain ⟨s₁, h₁, h₂⟩ := Option.bind_eq_some_iff.mp h
    rw [List.flatMap_cons, StepSystem.exec_append (Stretch.exec_turns h₁)]
    exact ih h₂

/-- A check of the end of a run, evaluated in stretches. -/
theorem any_of_stretches {l : List Stretch} {ts : List Turn} {s : Solo} {c : Solo → Bool}
    (h : ((stretches cfg).exec l s).any c = true) (hts : ts = l.flatMap Stretch.turns) :
    ((Solo.system cfg).exec ts s).any c = true := by
  obtain ⟨s', hexec, hc⟩ := StepSystem.exists_of_any h
  rw [hts, exec_stretches hexec]
  exact hc

/-- The stretches of `connecting`. -/
def connectingStretches : List Stretch :=
  [.turn .start, .turn (.recvPacket (inboundConnect []) true), .runs 0 6]

/-- The stretches of `successiveCalls`. -/
def successiveStretches (n : ℕ) : List Stretch :=
  connectingStretches ++ (List.range n).flatMap fun k =>
    [.turn (.newPacket (outboundPublish 1)), .turn (.publish (2 + k)), .runs (4 + k) 13]

theorem connecting_eq : connecting = connectingStretches.flatMap Stretch.turns := rfl

theorem successiveCalls_eq (n : ℕ) :
    successiveCalls n = (successiveStretches n).flatMap Stretch.turns := by
  rw [successiveCalls, connecting_eq, successiveStretches, List.flatMap_append, List.flatMap_assoc]
  rfl

end MqttBroker.Solo
