import Cllm.Framework.Cache
import Mathlib.Data.Finset.Card
import Mathlib.Data.Fintype.Card
import Mathlib.Data.List.Nodup
import Mathlib.Data.Fintype.EquivFin

namespace Cllm.Cache

variable {ι κ ν : Type*} [DecidableEq κ]

/-- The keys of a log, each once, the one that came last in front. -/
def recency (log : List (κ × ν)) : List κ :=
  log.foldl (fun keys e => e.1::keys.filter fun k => k≠e.1) []

theorem recency_concat (log : List (κ × ν)) (k : κ) (v : ν) :
    recency (log++[(k,v)])=k::(recency log).filter fun a => a≠k := by
  rw [recency,List.foldl_append]
  rfl

theorem nodup_recency (log : List (κ × ν)) : (recency log).Nodup := by
  induction log using List.reverseRecOn with
  | nil => exact List.nodup_nil
  | append_singleton log e ih =>
    rw [recency_concat log e.1 e.2,List.nodup_cons]
    exact ⟨by simp,ih.filter _⟩

/-- The `n` keys that came last. -/
def newest (n : Nat) (log : List (κ × ν)) : List κ := (recency log).take n

theorem nodup_newest (n : Nat) (log : List (κ × ν)) : (newest n log).Nodup :=
  (nodup_recency log).sublist (List.take_sublist _ _)

theorem filter_ne_of_not_mem {k : κ} {ks : List κ} (h : k∉ks) :
    ks.filter (fun a => a≠k)=ks := by
  rw [List.filter_eq_self]
  intro a ha
  rw [decide_eq_true_eq]
  rintro rfl
  exact h ha

theorem take_filter_ne {k : κ} {ks : List κ} {n : Nat} (hd : ks.Nodup) (h : k∈ks.take (n+1)) :
    (ks.filter fun a => a≠k).take n=(ks.take (n+1)).filter fun a => a≠k := by
  induction ks generalizing n with
  | nil => simp
  | cons a ks ih =>
    rw [List.nodup_cons] at hd
    rw [List.take_succ_cons,List.mem_cons] at h
    by_cases ha : a=k
    · subst ha
      have htake : a∉ks.take n := fun hm => hd.1 (List.mem_of_mem_take hm)
      have hfilter := filter_ne_of_not_mem hd.1
      have hfilter' := filter_ne_of_not_mem htake
      simp only [List.take_succ_cons,List.filter_cons,ne_eq,not_true,decide_false,
        Bool.false_eq_true,if_false] at hfilter hfilter' ⊢
      rw [hfilter,hfilter']
    · obtain h | h := h
      · exact absurd h.symm ha
      · cases n with
        | zero => simp at h
        | succ n =>
          have hih := ih hd.2 h
          simpa [ha] using hih

/-- An assignment to one of the keys that came last changes their order only. -/
theorem mem_newest_of_mem {n : Nat} {log : List (κ × ν)} {k : κ} (hk : k∈newest n log) (v : ν)
    (a : κ) : a∈newest n (log++[(k,v)]) ↔ a∈newest n log := by
  cases n with
  | zero => simp [newest] at hk
  | succ n =>
    rw [newest,recency_concat,List.take_succ_cons,take_filter_ne (nodup_recency log) hk]
    by_cases ha : a=k
    · subst ha
      simpa using hk
    · simp [newest,ha]

/-- Another key drives out the oldest of them. -/
theorem newest_of_not_mem {n : Nat} {log : List (κ × ν)} {k : κ} (hk : k∉newest (n+1) log)
    (v : ν) : newest (n+1) (log++[(k,v)])=k::newest n log := by
  have htake : ∀ (ks : List κ) (m : Nat),k∉ks.take (m+1) →
      (ks.filter fun a => a≠k).take m=ks.take m := by
    intro ks
    induction ks with
    | nil => simp
    | cons a ks ih =>
      intro m hm
      rw [List.take_succ_cons,List.mem_cons,not_or] at hm
      have ha : a≠k := Ne.symm hm.1
      cases m with
      | zero => rfl
      | succ m =>
        have hih := ih m hm.2
        simpa [ha] using hih
  rw [newest,recency_concat,List.take_succ_cons,htake _ _ hk,newest]

/-- The cache holds the `n` keys that came last, each with its last value. -/
def MostRecent (n : Nat) (c : Slots ι κ ν) (log : List (κ × ν)) : Prop :=
  ∀ k v,(∃ i,c i=some (k,v)) ↔ k∈newest n log ∧ latest k log=some v

variable {n : Nat} {c : Slots ι κ ν} {log : List (κ × ν)} {i : ι} {k : κ}

/-- The key has a place. -/
def Held (c : Slots ι κ ν) (k : κ) : Prop := ∃ i v,c i=some (k,v)

theorem MostRecent.held (h : MostRecent n c log) (hl : ∀ k∈newest n log,∃ v,latest k log=some v)
    (k : κ) : Held c k ↔ k∈newest n log := by
  constructor
  · intro hk
    obtain ⟨i,v,hi⟩ := hk
    exact ((h k v).mp ⟨i,hi⟩).1
  · intro hk
    obtain ⟨v,hv⟩ := hl k hk
    obtain ⟨i,hi⟩ := (h k v).mpr ⟨hk,hv⟩
    exact ⟨i,v,hi⟩

theorem mem_recency_latest (hk : k∈recency log) : ∃ v,latest k log=some v := by
  induction log using List.reverseRecOn with
  | nil => cases hk
  | append_singleton log e ih =>
    by_cases he : e.1=k
    · exact ⟨e.2,he ▸ latest_concat_self e.1 e.2 log⟩
    · rw [recency_concat log e.1 e.2,List.mem_cons] at hk
      obtain hk | hk := hk
      · exact absurd hk.symm he
      · obtain ⟨v,hv⟩ := ih (List.mem_filter.mp hk).1
        exact ⟨v,(latest_concat_of_ne e.2 log he).trans hv⟩

theorem mem_newest_latest (k : κ) (hk : k∈newest n log) : ∃ v,latest k log=some v :=
  mem_recency_latest (List.mem_of_mem_take hk)

section Counting

variable [Fintype ι]

/-- With a place left, fewer keys have come than there are places. -/
theorem MostRecent.room (h : MostRecent n c log) (hi : c i=none) :
    (newest n log).length < Fintype.card ι := by
  classical
  have hplace : ∀ a∈(newest n log).toFinset,∃ j v,c j=some (a,v) := by
    intro a ha
    exact (h.held mem_newest_latest a).mpr (List.mem_toFinset.mp ha)
  have hne : Nonempty ι := ⟨i⟩
  choose! place hplace using hplace
  have hcard : (newest n log).toFinset.card ≤ (Finset.univ.erase i).card := by
    apply Finset.card_le_card_of_injOn place
    · intro a ha
      rw [Finset.mem_coe,Finset.mem_erase]
      refine ⟨?_,Finset.mem_univ _⟩
      intro hp
      obtain ⟨v,hv⟩ := hplace a ha
      rw [hp,hi] at hv
      cases hv
    · intro a ha b hb hab
      obtain ⟨v,hva⟩ := hplace a ha
      obtain ⟨w,hvb⟩ := hplace b hb
      rw [hab,hvb] at hva
      simp only [Option.some.injEq,Prod.mk.injEq] at hva
      exact hva.1.symm
  have hpos : 0 < Fintype.card ι := Fintype.card_pos_iff.mpr ⟨i⟩
  rw [List.toFinset_card_of_nodup (nodup_newest n log),Finset.card_erase_of_mem (Finset.mem_univ i),
    Finset.card_univ] at hcard
  omega

end Counting

theorem latest_concat (k a : κ) (v : ν) (log : List (κ × ν)) :
    latest a (log++[(k,v)])=if a=k then some v else latest a log := by
  split
  · next h =>
    subst h
    exact latest_concat_self a v log
  · next h => exact latest_concat_of_ne v log (Ne.symm h)

theorem mem_newest_succ (n : Nat) (log : List (κ × ν)) (a : κ) :
    a∈newest (n+1) log ↔ a∈newest n log ∨ (recency log)[n]?=some a := by
  rw [newest,newest,List.take_add_one,List.mem_append,Option.mem_toList]

theorem not_mem_newest (h : (recency log)[n]?=some k) : k∉newest n log := by
  intro hk
  obtain ⟨m,hm,hk⟩ := List.mem_iff_getElem.mp hk
  rw [newest,List.length_take] at hm
  obtain ⟨hn,hkn⟩ := List.getElem?_eq_some_iff.mp h
  rw [← hkn] at hk
  have hlt : m < (recency log).length := by omega
  have hmk : (recency log)[m]=(recency log)[n] := by simpa [newest] using hk
  have := (nodup_recency log).getElem_inj_iff.mp hmk
  omega

section Step

variable [DecidableEq ι]

omit [DecidableEq κ] in
theorem exists_put (ha : Admits c i k) {a : κ} {v w : ν} :
    (∃ j,put c i k v j=some (a,w)) ↔
      (a=k ∧ w=v) ∨ (a≠k ∧ ∃ j,j≠i ∧ c j=some (a,w)) := by
  constructor
  · intro h
    obtain ⟨j,hj⟩ := h
    obtain ⟨-,hk,hv⟩ | ⟨hji,hc⟩ := put_cases hj
    · exact .inl ⟨hk,hv⟩
    · refine .inr ⟨?_,j,hji,hc⟩
      rintro rfl
      exact hji (ha j w hc)
  · intro h
    obtain ⟨rfl,rfl⟩ | ⟨-,j,hji,hc⟩ := h
    · exact ⟨i,put_self c i a w⟩
    · exact ⟨j,(put_of_ne c k v hji).trans hc⟩

/-- A key that is held already gets its new value. -/
theorem MostRecent.refresh (h : MostRecent n c log) (hd : Distinct c) {w : ν}
    (hi : c i=some (k,w)) (v : ν) : MostRecent n (put c i k v) (log++[(k,v)]) := by
  have ha : Admits c i k := fun j x hj => hd j i k x w hj hi
  have hk : k∈newest n log := ((h k w).mp ⟨i,hi⟩).1
  intro a x
  rw [exists_put ha,mem_newest_of_mem hk,latest_concat]
  by_cases hak : a=k
  · subst hak
    simp [hk,eq_comm]
  · have hj : (∃ j,j≠i ∧ c j=some (a,x)) ↔ ∃ j,c j=some (a,x) := by
      constructor
      · rintro ⟨j,-,hj⟩
        exact ⟨j,hj⟩
      · rintro ⟨j,hj⟩
        refine ⟨j,?_,hj⟩
        rintro rfl
        rw [hi] at hj
        simp only [Option.some.injEq,Prod.mk.injEq] at hj
        exact hak hj.1.symm
    simp [hak,hj,h a x]

/-- A new key takes an empty place. -/
theorem MostRecent.fill [Fintype ι] (hn : Fintype.card ι=n+1) (h : MostRecent (n+1) c log)
    (ha : Admits c i k) (hi : c i=none) (hk : k∉newest (n+1) log) (v : ν) :
    MostRecent (n+1) (put c i k v) (log++[(k,v)]) := by
  have hroom := h.room hi
  have hsame : ∀ a,a∈newest n log ↔ a∈newest (n+1) log := by
    intro a
    rw [newest,List.length_take] at hroom
    have hnone : (recency log)[n]?=none := List.getElem?_eq_none (by omega)
    rw [mem_newest_succ,hnone]
    simp
  intro a x
  rw [exists_put ha,newest_of_not_mem hk,latest_concat,List.mem_cons,hsame]
  by_cases hak : a=k
  · subst hak
    simp [eq_comm]
  · have hj : (∃ j,j≠i ∧ c j=some (a,x)) ↔ ∃ j,c j=some (a,x) := by
      constructor
      · rintro ⟨j,-,hj⟩
        exact ⟨j,hj⟩
      · rintro ⟨j,hj⟩
        refine ⟨j,?_,hj⟩
        rintro rfl
        rw [hi] at hj
        cases hj
    simp [hak,hj,h a x]

/-- A new key that takes the place of another has to take that of the oldest. -/
theorem MostRecent.evict_iff (h : MostRecent (n+1) c log) (hd : Distinct c) (ha : Admits c i k)
    {b : κ} {w : ν} (hi : c i=some (b,w)) (hk : k∉newest (n+1) log) (v : ν) :
    MostRecent (n+1) (put c i k v) (log++[(k,v)]) ↔ (recency log)[n]?=some b := by
  obtain ⟨hb,hlatest⟩ := (h b w).mp ⟨i,hi⟩
  have hbk : b≠k := by
    rintro rfl
    exact hk hb
  constructor
  · intro hput
    have hgone : ¬∃ j,put c i k v j=some (b,w) := by
      rw [exists_put ha]
      rintro (⟨hbk',-⟩ | ⟨-,j,hji,hj⟩)
      · exact hbk hbk'
      · exact hji (hd j i b w w hj hi)
    rw [hput b w,newest_of_not_mem hk,latest_concat,if_neg hbk,List.mem_cons] at hgone
    obtain hb' | hb' := (mem_newest_succ n log b).mp hb
    · exact absurd ⟨.inr hb',hlatest⟩ hgone
    · exact hb'
  · intro hlast a x
    rw [exists_put ha,newest_of_not_mem hk,latest_concat,List.mem_cons]
    by_cases hak : a=k
    · subst hak
      simp [eq_comm]
    · have hj : (∃ j,j≠i ∧ c j=some (a,x)) ↔ a∈newest n log ∧ latest a log=some x := by
        constructor
        · rintro ⟨j,hji,hj⟩
          obtain ⟨ha',hx⟩ := (h a x).mp ⟨j,hj⟩
          obtain ha' | ha' := (mem_newest_succ n log a).mp ha'
          · exact ⟨ha',hx⟩
          · rw [hlast] at ha'
            have hab : b=a := Option.some.inj ha'
            rw [← hab] at hj
            exact absurd (hd j i b x w hj hi) hji
        · rintro ⟨ha',hx⟩
          obtain ⟨j,hj⟩ := (h a x).mpr ⟨(mem_newest_succ n log a).mpr (.inl ha'),hx⟩
          refine ⟨j,?_,hj⟩
          rintro rfl
          rw [hi] at hj
          simp only [Option.some.injEq,Prod.mk.injEq] at hj
          rw [← hj.1] at ha'
          exact not_mem_newest hlast ha'
      simp [hak,hj]

end Step

end Cllm.Cache
