import Mathlib.Data.List.Chain

namespace HilLab.Lib.Tenancy

variable {ι κ : Type}

/-- One stay at a resource that is let to one party at a time: who stayed, and
the calls it made. -/
structure Stay (ι κ : Type) where
  who : ι
  calls : List κ

def Stay.entries (s : Stay ι κ) : List (ι × κ) := s.calls.map (fun c => (s.who, c))

/-- The log is that of stays one after the other, the calls of each as P says. -/
def Stays (P : List κ → Prop) (log : List (ι × κ)) : Prop :=
  ∃ stays : List (Stay ι κ), (∀ s ∈ stays, P s.calls) ∧ log = stays.flatMap Stay.entries

/-- Past stays as P says, and one of who that is not over, as Q says. -/
def Occupied (P Q : List κ → Prop) (who : ι) (log : List (ι × κ)) : Prop :=
  ∃ past calls, Stays P past ∧ Q calls ∧ log = past ++ calls.map (fun c => (who, c))

section Rules

variable {P Q R : List κ → Prop} {who : ι} {log : List (ι × κ)}

theorem stays_nil : Stays P ([] : List (ι × κ)) := ⟨[], by simp, rfl⟩

theorem stays_append {past : List (ι × κ)} (h : Stays P past) {calls : List κ} (hc : P calls) :
    Stays P (past ++ calls.map (fun c => (who, c))) := by
  obtain ⟨stays, hall, rfl⟩ := h
  refine ⟨stays ++ [⟨who, calls⟩], ?_, ?_⟩
  · simp only [List.mem_append, List.mem_singleton]
    rintro s (hs | rfl)
    · exact hall s hs
    · exact hc
  · simp [Stay.entries]

theorem Stays.occupy (h : Stays P log) (hq : Q []) : Occupied P Q who log :=
  ⟨log, [], h, hq, (List.append_nil log).symm⟩

theorem Occupied.mono (h : Occupied P Q who log) (hqr : ∀ calls, Q calls → R calls) :
    Occupied P R who log := by
  obtain ⟨past, calls, hpast, hcalls, rfl⟩ := h
  exact ⟨past, calls, hpast, hqr calls hcalls, rfl⟩

theorem Occupied.call (h : Occupied P Q who log) (c : κ) (hqr : ∀ calls, Q calls → R (calls ++ [c])) :
    Occupied P R who (log ++ [(who, c)]) := by
  obtain ⟨past, calls, hpast, hcalls, rfl⟩ := h
  exact ⟨past, calls ++ [c], hpast, hqr calls hcalls, by simp⟩

theorem Occupied.vacate (h : Occupied P Q who log) (hqp : ∀ calls, Q calls → P calls) : Stays P log := by
  obtain ⟨past, calls, hpast, hcalls, rfl⟩ := h
  exact stays_append hpast (hqp calls hcalls)

end Rules

section Handover

variable {P Q : List κ → Prop} {opens closes : κ → Prop}

/-- What may follow what: another party comes in only after a closing call, and
its own first call is an opening one. -/
def Follows (opens closes : κ → Prop) (a b : ι × κ) : Prop := a.1 = b.1 ∨ (closes a.2 ∧ opens b.2)

theorem entries_isChain (who : ι) (calls : List κ) :
    (calls.map (fun c => (who, c))).IsChain (Follows opens closes) := by
  induction calls with
  | nil => exact List.isChain_nil
  | cons c calls ih =>
      cases calls with
      | nil => exact List.isChain_singleton _
      | cons d calls => exact List.isChain_cons_cons.mpr ⟨Or.inl rfl, ih⟩

/-- A stay that opens as it should keeps a log whose last call closes in order. -/
theorem isChain_append_stay {past : List (ι × κ)} (hpast : past.IsChain (Follows opens closes))
    (hlast : ∀ a ∈ past.getLast?, closes a.2) (who : ι) {calls : List κ}
    (hopen : ∀ c ∈ calls.head?, opens c) :
    (past ++ calls.map (fun c => (who, c))).IsChain (Follows opens closes) := by
  refine List.isChain_append.mpr ⟨hpast, entries_isChain who calls, ?_⟩
  intro a ha b hb
  rw [List.head?_map] at hb
  obtain ⟨c, hc, rfl⟩ := Option.map_eq_some_iff.mp hb
  exact Or.inr ⟨hlast a ha, hopen c hc⟩

theorem Stays.isChain (hopen : ∀ calls, P calls → ∀ c ∈ calls.head?, opens c)
    (hclose : ∀ calls, P calls → ∀ c ∈ calls.getLast?, closes c) {log : List (ι × κ)}
    (h : Stays P log) :
    log.IsChain (Follows opens closes) ∧ ∀ a ∈ log.getLast?, closes a.2 := by
  obtain ⟨stays, hall, rfl⟩ := h
  induction stays using List.reverseRecOn with
  | nil => exact ⟨List.isChain_nil, by simp⟩
  | append_singleton stays s ih =>
      obtain ⟨hchain, hlast⟩ := ih (fun t ht => hall t (List.mem_append_left _ ht))
      have hs := hall s (List.mem_append_right _ (List.mem_singleton_self s))
      rw [List.flatMap_append, List.flatMap_singleton]
      refine ⟨isChain_append_stay hchain hlast s.who (hopen s.calls hs), ?_⟩
      intro a ha
      rw [List.getLast?_append, Stay.entries, List.getLast?_map] at ha
      cases hl : s.calls.getLast? with
      | none =>
          rw [hl] at ha
          exact hlast a ha
      | some c =>
          rw [hl] at ha
          cases Option.mem_some_iff.mp ha
          exact hclose s.calls hs c hl

theorem Occupied.isChain (hopen : ∀ calls, P calls → ∀ c ∈ calls.head?, opens c)
    (hclose : ∀ calls, P calls → ∀ c ∈ calls.getLast?, closes c)
    (hfirst : ∀ calls, Q calls → ∀ c ∈ calls.head?, opens c) {who : ι} {log : List (ι × κ)}
    (h : Occupied P Q who log) : log.IsChain (Follows opens closes) := by
  obtain ⟨past, calls, hpast, hcalls, rfl⟩ := h
  obtain ⟨hchain, hlast⟩ := hpast.isChain hopen hclose
  exact isChain_append_stay hchain hlast who (hfirst calls hcalls)

end Handover

end HilLab.Lib.Tenancy
