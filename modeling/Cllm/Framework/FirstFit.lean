import Cllm.Framework.Pool

namespace Cllm.Pool

open Extent

variable {α : Type*} [LinearOrder α]

/-- Where the part of an extent that is taken would end; `none` if the extent does not do. -/
abbrev Cut (α : Type*) [LinearOrder α] := (e : Extent α) → Option {x : α // e.start<x ∧ x≤e.stop}

/-- What is left of an extent behind a point in it. -/
def remnant (e : Extent α) (x : α) : List (Extent α) :=
  if h : x<e.stop then [⟨x,e.stop,h⟩] else []

/-- The first extent that does, as far as it is taken, and what then is free. -/
def firstFit (cut : Cut α) : List (Extent α) → Option (Extent α × List (Extent α))
  | [] => none
  | e::es =>
    match cut e with
    | some ⟨x,hx⟩ => some (⟨e.start,x,hx.1⟩,remnant e x++es)
    | none => (firstFit cut es).map fun (a,fs) => (a,e::fs)

section FirstFit

variable {cut : Cut α} {P : Pool α} {e a : Extent α} {es fs : List (Extent α)} {x : α}

theorem firstFit_none : firstFit cut es=none ↔ ∀ e∈es,cut e=none := by
  induction es with
  | nil => simp [firstFit]
  | cons e es ih =>
    rw [firstFit,List.forall_mem_cons]
    cases hcut : cut e with
    | some x => simp
    | none => simpa using ih

/-- The extent that is taken, and those before it, which do not do. -/
theorem firstFit_some (h : firstFit cut es=some (a,fs)) :
    ∃ pre e post x hx,es=pre++e::post ∧ (∀ f∈pre,cut f=none) ∧ cut e=some ⟨x,hx⟩ ∧
      a=⟨e.start,x,hx.1⟩ ∧ fs=pre++remnant e x++post := by
  induction es generalizing fs with
  | nil => cases h
  | cons e es ih =>
    rw [firstFit] at h
    cases hcut : cut e with
    | some x =>
      rw [hcut] at h
      simp only [Option.some.injEq,Prod.mk.injEq] at h
      exact ⟨[],e,es,x,x.2,rfl,by simp,hcut,h.1.symm,h.2.symm⟩
    | none =>
      rw [hcut] at h
      obtain ⟨⟨b,gs⟩,hb,heq⟩ := Option.map_eq_some_iff.mp h
      simp only [Prod.mk.injEq] at heq
      obtain ⟨rfl,rfl⟩ := heq
      obtain ⟨pre,f,post,x,hx,rfl,hpre,hf,ha,rfl⟩ := ih hb
      exact ⟨e::pre,f,post,x,hx,rfl,List.forall_mem_cons.mpr ⟨hcut,hpre⟩,hf,ha,rfl⟩

theorem takes_remnant (hx : e.start<x ∧ x≤e.stop) (pre post live : List (Extent α)) :
    Takes ⟨pre++e::post,live⟩ ⟨e.start,x,hx.1⟩
      ⟨pre++remnant e x++post,⟨e.start,x,hx.1⟩::live⟩ := by
  by_cases h : x<e.stop
  · have htakes := Takes.part pre ⟨e.start,x,hx.1⟩ ⟨x,e.stop,h⟩ rfl post live
    rw [remnant,dif_pos h,List.append_assoc]
    exact htakes
  · have hstop : x=e.stop := hx.2.antisymm (not_lt.mp h)
    subst hstop
    rw [remnant,dif_neg h,List.append_nil]
    exact .whole pre e post live

/-- First fit takes an extent into use. -/
theorem firstFit_takes {live : List (Extent α)} (h : firstFit cut es=some (a,fs)) :
    Takes ⟨es,live⟩ a ⟨fs,a::live⟩ := by
  obtain ⟨pre,e,post,x,hx,rfl,-,-,rfl,rfl⟩ := firstFit_some h
  exact takes_remnant hx pre post live

end FirstFit

section Free

variable {P Q : Pool α} {a : Extent α}

/-- What is free is known from what is in use and what there is. -/
theorem free_eq (hP : P.Sound) (hQ : Q.Sound) (hall : covered P.all=covered Q.all)
    (hlive : covered P.live=covered Q.live) : P.free=Q.free := by
  apply eq_of_covered hP.separated hQ.separated
  have free_of {P : Pool α} (hP : P.Sound) : covered P.free=covered P.all\covered P.live := by
    rw [all,covered_append,Set.union_sdiff_cancel_right]
    rintro x ⟨⟨e,he,hxe⟩,⟨f,hf,hxf⟩⟩
    exact Set.disjoint_left.mp (apart_iff_disjoint.mp (hP.free_live he hf)) hxe hxf
  rw [free_of hP,free_of hQ,hall,hlive]

/-- An extent can be taken in one way only. -/
theorem Takes.unique {P' P'' : Pool α} (h : Takes P a P') (h' : Takes P a P'') (hP : P.Sound) :
    P'=P'' := by
  have hall : covered P'.all=covered P''.all := h.covered_all.trans h'.covered_all.symm
  have hlive : P'.live=P''.live := h.mem.trans h'.mem.symm
  have hfree := free_eq (h.sound hP) (h'.sound hP) hall (by rw [hlive])
  cases P'
  cases P''
  simp_all only

/-- Taking an extent leaves the rest of what was free. -/
theorem Takes.covered_free {P' : Pool α} (h : Takes P a P') :
    a.range∪covered P'.free=covered P.free := by
  cases h with
  | whole pre e post live =>
    simp only [covered_append,covered_cons]
    ext x
    simp only [Set.mem_union]
    tauto
  | part pre e rest h post live =>
    simp only [covered_append,covered_cons,range_join]
    ext x
    simp only [Set.mem_union]
    tauto

/-- An extent that has been taken and goes back leaves nothing behind. -/
theorem Takes.release {P' : Pool α} (h : Takes P a P') (hP : P.Sound) : P'.release a=P := by
  have hP' := h.sound hP
  have hmem : a∈P'.live := by
    rw [h.mem]
    exact .head _
  have hlive : (P'.release a).live=P.live := by
    have hapart := hP'.live_apart
    rw [h.mem,List.pairwise_cons] at hapart
    show P'.live.filter _=P.live
    rw [h.mem,List.filter_cons_of_neg (by simp)]
    exact List.filter_eq_self.mpr fun f hf => by simpa using (hapart.1 f hf).start_ne.symm
  have hall : covered (P'.release a).all=covered P.all :=
    (covered_release hP' hmem).trans h.covered_all
  have hfree := free_eq (release_sound hP' hmem) hP hall (by rw [hlive])
  cases P
  exact congrArg₂ Pool.mk hfree hlive

/-- Two extents go back in either order. -/
theorem release_comm {b : Extent α} (hP : P.Sound) (ha : a∈P.live) (hb : b∈P.live)
    (hne : a.start≠b.start) : (P.release a).release b=(P.release b).release a := by
  have gone {a b : Extent α} (hb : b∈P.live) (hne : a.start≠b.start) : b∈(P.release a).live :=
    List.mem_filter.mpr ⟨hb,by simpa using hne.symm⟩
  have hba := gone hb hne
  have hab := gone ha hne.symm
  have hA := release_sound hP ha
  have hB := release_sound hP hb
  have hlive : ((P.release a).release b).live=((P.release b).release a).live := by
    simp only [release,List.filter_filter]
    exact List.filter_congr fun f _ => Bool.and_comm ..
  have hall : covered ((P.release a).release b).all=covered ((P.release b).release a).all := by
    rw [covered_release hA hba,covered_release hB hab,covered_release hP ha,
      covered_release hP hb]
  have hfree := free_eq (release_sound hA hba) (release_sound hB hab) hall (by rw [hlive])
  exact congrArg₂ Pool.mk hfree hlive

/-- Taking changes where the free extents start. -/
theorem Takes.starts_ne {P' : Pool α} (h : Takes P a P') :
    P'.free.map Extent.start≠P.free.map Extent.start := by
  intro heq
  cases h with
  | whole pre e post live =>
    have hlen := congrArg List.length heq
    simp only [List.length_map,List.length_append,List.length_cons] at hlen
    omega
  | part pre e rest h post live =>
    rw [List.map_append,List.map_append,List.map_cons,List.map_cons] at heq
    have hstart := (List.cons.inj (List.append_cancel_left heq)).1
    have hproper := a.proper
    rw [h,hstart] at hproper
    exact lt_irrefl _ hproper

end Free

end Cllm.Pool
