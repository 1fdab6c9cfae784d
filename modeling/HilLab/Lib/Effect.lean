import Mathlib.Logic.Function.Basic

namespace HilLab.Lib.Effect

variable {σ ε α β : Type}

/-- Imperative code over a state σ that may raise ε. What it did to the state
before it raised stays done. -/
abbrev Eff (σ ε α : Type) := ExceptT ε (StateM σ) α

def exec (m : Eff σ ε α) (s : σ) : Except ε α × σ := StateT.run (ExceptT.run m) s

@[simp]
theorem exec_liftExcept (r : Except ε α) (s : σ) : exec (liftExcept r : Eff σ ε α) s = (r, s) := by
  cases r <;> rfl

@[simp]
theorem exec_pure (a : α) (s : σ) : exec (pure a : Eff σ ε α) s = (.ok a, s) := rfl

@[simp]
theorem exec_throw (e : ε) (s : σ) : exec (throw e : Eff σ ε α) s = (.error e, s) := rfl

@[simp]
theorem exec_get (s : σ) : exec (get : Eff σ ε σ) s = (.ok s, s) := rfl

@[simp]
theorem exec_set (s t : σ) : exec (set t : Eff σ ε PUnit) s = (.ok ⟨⟩, t) := rfl

@[simp]
theorem exec_modify (f : σ → σ) (s : σ) : exec (modify f : Eff σ ε PUnit) s = (.ok ⟨⟩, f s) := rfl

theorem exec_bindCont (m : Eff σ ε α) (f : α → Eff σ ε β) (s : σ) :
    exec (m >>= f) s = StateT.run (ExceptT.bindCont f (exec m s).1) (exec m s).2 := rfl

theorem exec_bind_ok {m : Eff σ ε α} {f : α → Eff σ ε β} {s t : σ} {a : α}
    (h : exec m s = (.ok a, t)) : exec (m >>= f) s = exec (f a) t := by
  rw [exec_bindCont, h]
  rfl

theorem exec_bind_error {m : Eff σ ε α} {f : α → Eff σ ε β} {s t : σ} {e : ε}
    (h : exec m s = (.error e, t)) : exec (m >>= f) s = (.error e, t) := by
  rw [exec_bindCont, h]
  rfl

theorem exec_bind (m : Eff σ ε α) (f : α → Eff σ ε β) (s : σ) :
    exec (m >>= f) s =
      match exec m s with
      | (.ok a, t) => exec (f a) t
      | (.error e, t) => (.error e, t) := by
  rcases h : exec m s with ⟨e | a, t⟩
  · exact exec_bind_error h
  · exact exec_bind_ok h

/-- A try block: the code runs, and what it raised is handed back. -/
def attempt (m : Eff σ ε α) : Eff σ ε (Except ε α) :=
  ExceptT.mk (do return .ok (← ExceptT.run m))

@[simp]
theorem exec_attempt (m : Eff σ ε α) (s : σ) :
    exec (attempt m) s = (.ok (exec m s).1, (exec m s).2) := rfl

section Zoom

variable {τ : Type}

/-- Code over a part of the state, run in the whole. -/
def zoom (part : σ → τ) (put : τ → σ → σ) (m : Eff τ ε α) : Eff σ ε α :=
  ExceptT.mk (fun s => ((exec m (part s)).1, put (exec m (part s)).2 s))

@[simp]
theorem exec_zoom (part : σ → τ) (put : τ → σ → σ) (m : Eff τ ε α) (s : σ) :
    exec (zoom part put m) s = ((exec m (part s)).1, put (exec m (part s)).2 s) := rfl

variable {ι : Type} [DecidableEq ι]

def within (i : ι) (m : Eff τ ε α) : Eff (ι → τ) ε α :=
  zoom (fun s => s i) (fun t s => Function.update s i t) m

@[simp]
theorem exec_within (i : ι) (m : Eff τ ε α) (s : ι → τ) :
    exec (within i m) s = ((exec m (s i)).1, Function.update s i (exec m (s i)).2) := rfl

end Zoom

section Keeps

variable {τ : Type} {f : σ → τ}

/-- The code leaves what f reads of the state as it was, also when it raises. -/
def Keeps (f : σ → τ) (m : Eff σ ε α) : Prop := ∀ s, f (exec m s).2 = f s

theorem keeps_pure (a : α) : Keeps f (pure a : Eff σ ε α) := fun _ => rfl

theorem keeps_throw (e : ε) : Keeps f (throw e : Eff σ ε α) := fun _ => rfl

theorem keeps_liftExcept (r : Except ε α) : Keeps f (liftExcept r : Eff σ ε α) := by
  intro s
  rw [exec_liftExcept]

theorem keeps_attempt {m : Eff σ ε α} (h : Keeps f m) : Keeps f (attempt m) := h

theorem keeps_bind {m : Eff σ ε α} {k : α → Eff σ ε β} (hm : Keeps f m) (hk : ∀ a, Keeps f (k a)) :
    Keeps f (m >>= k) := by
  intro s
  have hs := hm s
  rcases h : exec m s with ⟨e | a, t⟩
  · rw [exec_bind_error h]
    rwa [h] at hs
  · rw [exec_bind_ok h, hk a t]
    rwa [h] at hs

theorem keeps_get_bind {k : σ → Eff σ ε α} (h : ∀ s, f (exec (k s) s).2 = f s) :
    Keeps f (get >>= k) := h

end Keeps

section Preserves

variable {P : σ → Prop}

/-- The code leaves an invariant of the state intact, also when it raises. -/
def Preserves (P : σ → Prop) (m : Eff σ ε α) : Prop := ∀ s, P s → P (exec m s).2

theorem preserves_throw (e : ε) : Preserves P (throw e : Eff σ ε α) := fun _ hs => hs

theorem preserves_liftExcept (r : Except ε α) : Preserves P (liftExcept r : Eff σ ε α) := by
  intro s hs
  rw [exec_liftExcept]
  exact hs

theorem preserves_bind {m : Eff σ ε α} {k : α → Eff σ ε β} (hm : Preserves P m)
    (hk : ∀ a, Preserves P (k a)) : Preserves P (m >>= k) := by
  intro s hs
  have ht := hm s hs
  rcases h : exec m s with ⟨e | a, t⟩
  · rw [exec_bind_error h]
    rwa [h] at ht
  · rw [exec_bind_ok h]
    rw [h] at ht
    exact hk a t ht

end Preserves

end HilLab.Lib.Effect
