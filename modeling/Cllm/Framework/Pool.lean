import Cllm.Framework.Extent

namespace Cllm

open Extent

/-- A region that is handed out in extents: those that are free, by position, and those in use. -/
structure Pool (α : Type*) [LinearOrder α] where
  free : List (Extent α)
  live : List (Extent α)

namespace Pool

variable {α : Type*} [LinearOrder α]

def all (P : Pool α) : List (Extent α) := P.free++P.live

/-- No two extents overlap, and no two free ones even touch. -/
structure Sound (P : Pool α) : Prop where
  apart : P.all.Pairwise Apart
  separated : P.free.Pairwise Before

/-- An extent is taken into use: a free one, or the front of a free one. -/
inductive Takes : Pool α → Extent α → Pool α → Prop
  | whole (pre : List (Extent α)) (e : Extent α) (post live : List (Extent α)) :
      Takes ⟨pre++e::post,live⟩ e ⟨pre++post,e::live⟩
  | part (pre : List (Extent α)) (e rest : Extent α) (h : e.stop=rest.start)
      (post live : List (Extent α)) :
      Takes ⟨pre++e.join rest h::post,live⟩ e ⟨pre++rest::post,e::live⟩

/-- An extent goes back, and is joined with its neighbours. -/
def release (P : Pool α) (e : Extent α) : Pool α :=
  ⟨coalesce (place e P.free),P.live.filter fun f => f.start≠e.start⟩

/-- An extent in use gives its end away, to nobody. -/
def trim (P : Pool α) (e : Extent α) (stop : α) (h : e.start<stop) : Pool α :=
  ⟨P.free,P.live.map fun f => if f.start=e.start then ⟨e.start,stop,h⟩ else f⟩

section Lists

variable {e : Extent α} {es fs : List (Extent α)}

theorem pairwise_apart_perm (h : es.Perm fs) : es.Pairwise Apart ↔ fs.Pairwise Apart :=
  h.pairwise_iff fun hab => Apart.symm hab

theorem pairwise_apart_map (h : es.Pairwise Apart) (φ : Extent α → Extent α)
    (hφ : ∀ f∈es,(φ f).range⊆f.range) : (es.map φ).Pairwise Apart := by
  rw [List.pairwise_map]
  refine h.imp_of_mem fun {f g} hf hg hfg => ?_
  rw [apart_iff_disjoint] at hfg ⊢
  exact hfg.mono (hφ f hf) (hφ g hg)

/-- Extents in use are told apart by where they start. -/
theorem start_inj (h : es.Pairwise Apart) {f : Extent α} (he : e∈es) (hf : f∈es)
    (hs : f.start=e.start) : f=e := by
  induction es with
  | nil => cases he
  | cons g gs ih =>
    rw [List.pairwise_cons] at h
    rw [List.mem_cons] at he hf
    rcases he with rfl|he
    · rcases hf with rfl|hf
      · rfl
      · exact absurd hs.symm (h.1 f hf).start_ne
    · rcases hf with rfl|hf
      · exact absurd hs (h.1 e he).start_ne
      · exact ih h.2 he hf

theorem perm_filter_start (h : es.Pairwise Apart) (he : e∈es) :
    es.Perm (e::es.filter fun f => f.start≠e.start) := by
  induction es with
  | nil => cases he
  | cons g gs ih =>
    rw [List.pairwise_cons] at h
    rw [List.mem_cons] at he
    rcases he with rfl|he
    · have hrest : gs.filter (fun f => f.start≠e.start)=gs :=
        List.filter_eq_self.mpr fun f hf => by simpa using (h.1 f hf).start_ne.symm
      rw [List.filter_cons_of_neg (by simp),hrest]
    · have hne := (h.1 e he).start_ne
      rw [List.filter_cons_of_pos (by simpa using hne)]
      exact ((ih h.2 he).cons g).trans (.swap e g _)

/-- Two members that overlap are one. -/
theorem apart_or_eq (h : es.Pairwise Apart) {f : Extent α} (he : e∈es) (hf : f∈es) :
    e=f ∨ Apart e f := by
  by_cases hs : f.start=e.start
  · exact .inl (start_inj h he hf hs).symm
  · right
    obtain ⟨hh,-⟩ := List.pairwise_cons.mp ((pairwise_apart_perm (perm_filter_start h he)).mp h)
    exact hh f (List.mem_filter.mpr ⟨hf,by simpa using hs⟩)

end Lists

section Steps

variable {P P' : Pool α} {e : Extent α}

theorem Takes.mem (h : Takes P e P') : P'.live=e::P.live := by
  cases h <;> rfl

theorem Takes.covered_all (h : Takes P e P') : covered P'.all=covered P.all := by
  cases h with
  | whole pre e post live =>
    simp only [all,covered_append,covered_cons]
    ext x
    simp only [Set.mem_union]
    tauto
  | part pre e rest h post live =>
    simp only [all,covered_append,covered_cons,range_join]
    ext x
    simp only [Set.mem_union]
    tauto

theorem Takes.sound (h : Takes P e P') (hP : P.Sound) : P'.Sound := by
  have hs := hP.separated
  have ha := hP.apart
  cases h with
  | whole pre e post live =>
    refine ⟨?_,hs.sublist (List.sublist_append_right [e] post |>.append_left pre)⟩
    have hp : (pre++post++e::live).Perm (pre++e::post++live) := by
      rw [List.append_assoc,List.append_assoc,List.cons_append]
      exact (List.perm_middle).append_left pre
    exact (pairwise_apart_perm hp).mpr ha
  | part pre e rest h post live =>
    have he : e.range⊆(e.join rest h).range := by
      rw [range_join]
      exact Set.subset_union_left
    have hr : rest.range⊆(e.join rest h).range := by
      rw [range_join]
      exact Set.subset_union_right
    refine ⟨?_,?_⟩
    · have hp : (pre++e.join rest h::post++live).Perm (e.join rest h::(pre++post++live)) := by
        rw [List.append_assoc,List.cons_append,List.append_assoc]
        exact List.perm_middle
      have hp' : (pre++rest::post++e::live).Perm (e::rest::(pre++post++live)) := by
        refine List.perm_middle.trans (.cons e ?_)
        rw [List.append_assoc,List.cons_append,List.append_assoc]
        exact List.perm_middle
      obtain ⟨hj,hrest⟩ := List.pairwise_cons.mp ((pairwise_apart_perm hp).mp ha)
      rw [all,pairwise_apart_perm hp',List.pairwise_cons,List.pairwise_cons,List.forall_mem_cons]
      refine ⟨⟨.inl h.le,fun f hf => ?_⟩,fun f hf => ?_,hrest⟩
      · exact apart_iff_disjoint.mpr ((apart_iff_disjoint.mp (hj f hf)).mono_left he)
      · exact apart_iff_disjoint.mpr ((apart_iff_disjoint.mp (hj f hf)).mono_left hr)
    · rw [List.pairwise_append,List.pairwise_cons] at hs ⊢
      refine ⟨hs.1,⟨fun f hf => hs.2.1.1 f hf,hs.2.1.2⟩,fun f hf g hg => ?_⟩
      rcases List.mem_cons.mp hg with rfl|hg
      · have hb : f.stop<e.start := hs.2.2 f hf (e.join _ h) (.head _)
        exact hb.trans (e.proper.trans_eq h)
      · exact hs.2.2 f hf g (.tail _ hg)

theorem Sound.live_apart (hP : P.Sound) : P.live.Pairwise Apart :=
  (List.pairwise_append.mp hP.apart).2.1

theorem Sound.free_live (hP : P.Sound) {f g : Extent α} (hf : f∈P.free) (hg : g∈P.live) :
    Apart f g := (List.pairwise_append.mp hP.apart).2.2 f hf g hg

theorem Sound.apart_of_start_ne (hP : P.Sound) {f : Extent α} (he : e∈P.live) (hf : f∈P.live)
    (hne : f.start≠e.start) : Apart f e := by
  rcases apart_or_eq hP.live_apart he hf with rfl|h
  · exact absurd rfl hne
  · exact h.symm

theorem Sound.place_upto (hP : P.Sound) (he : e∈P.live) :
    (place e P.free).Pairwise Upto :=
  Extent.place_upto (hP.separated.imp le_of_lt) fun _ hf => (hP.free_live hf he).symm

theorem covered_release (hP : P.Sound) (he : e∈P.live) :
    covered (P.release e).all=covered P.all := by
  have hl := covered_perm (perm_filter_start hP.live_apart he)
  rw [all,all,covered_append,covered_append,hl,release,covered_coalesce,
    covered_perm (place_perm e P.free),covered_cons,covered_cons]
  ext x
  simp only [Set.mem_union]
  tauto

/-- What is free stays so when an extent goes back. -/
theorem covered_release_free (P : Pool α) (e : Extent α) :
    covered (P.release e).free=e.range∪covered P.free := by
  rw [release,covered_coalesce,covered_perm (place_perm e P.free),covered_cons]

theorem release_sound (hP : P.Sound) (he : e∈P.live) : (P.release e).Sound := by
  have hsep := coalesce_separated (hP.place_upto he)
  obtain ⟨he',hrest⟩ := List.pairwise_cons.mp
    ((pairwise_apart_perm (perm_filter_start hP.live_apart he)).mp hP.live_apart)
  refine ⟨List.pairwise_append.mpr ⟨hsep.imp Before.apart,hrest,fun f hf g hg => ?_⟩,hsep⟩
  -- what stays in use is apart from all that the joined extents are made of
  have hall : ∀ x∈place e P.free,Apart g x := by
    intro x hx
    rcases mem_place.mp hx with rfl|hx
    · exact (he' g hg).symm
    · exact (hP.free_live hx (List.mem_filter.mp hg).1).symm
  have hd := forall_apart_iff.mp hall
  rw [← covered_coalesce] at hd
  exact (forall_apart_iff.mpr hd f hf).symm

theorem trim_range {stop : α} (h : e.start<stop) (hP : P.Sound) (he : e∈P.live)
    (hs : stop≤e.stop) {f : Extent α} (hf : f∈P.live) :
    (if f.start=e.start then (⟨e.start,stop,h⟩ : Extent α) else f).range⊆f.range := by
  split_ifs with hfe
  · obtain rfl := start_inj hP.live_apart he hf hfe
    exact Set.Ico_subset_Ico_right hs
  · exact subset_rfl

theorem trim_sound {stop : α} (h : e.start<stop) (hP : P.Sound) (he : e∈P.live)
    (hs : stop≤e.stop) : (P.trim e stop h).Sound := by
  have hr {f : Extent α} := trim_range h hP he hs (f := f)
  have hfree := (List.pairwise_append.mp hP.apart).1
  refine ⟨List.pairwise_append.mpr ⟨hfree,pairwise_apart_map hP.live_apart _ fun f => hr,
    fun f hf g hg => ?_⟩,hP.separated⟩
  obtain ⟨g',hg',rfl⟩ := List.mem_map.mp hg
  exact apart_iff_disjoint.mpr ((apart_iff_disjoint.mp (hP.free_live hf hg')).mono_right (hr hg'))

/-- Just the end is lost. -/
theorem covered_trim {stop : α} (h : e.start<stop) (hP : P.Sound) (he : e∈P.live)
    (hs : stop≤e.stop) :
    covered (P.trim e stop h).all=covered P.all\Set.Ico stop e.stop := by
  have hne {f : Extent α} (hf : Apart f e) {x : α} (hx : x∈f.range) :
      x∉Set.Ico stop e.stop := fun hx' =>
    Set.disjoint_left.mp (apart_iff_disjoint.mp hf) hx ⟨h.le.trans hx'.1,hx'.2⟩
  ext x
  simp only [all,trim,covered_append,Set.mem_union,Set.mem_sdiff]
  constructor
  · rintro (⟨f,hf,hx⟩|⟨g,hg,hx⟩)
    · exact ⟨.inl ⟨f,hf,hx⟩,hne (hP.free_live hf he) hx⟩
    · obtain ⟨f,hf,rfl⟩ := List.mem_map.mp hg
      refine ⟨.inr ⟨f,hf,trim_range h hP he hs hf hx⟩,?_⟩
      split_ifs at hx with hfe
      · exact fun hx' => absurd hx.2 hx'.1.not_gt
      · exact hne (hP.apart_of_start_ne he hf hfe) hx
  · rintro ⟨⟨f,hf,hx⟩|⟨f,hf,hx⟩,hno⟩
    · exact .inl ⟨f,hf,hx⟩
    · refine .inr ⟨_,List.mem_map_of_mem hf,?_⟩
      split_ifs with hfe
      · obtain rfl := start_inj hP.live_apart he hf hfe
        refine ⟨hx.1,not_le.mp fun hlate => hno ⟨hlate,hx.2⟩⟩
      · exact hx

end Steps

end Pool

end Cllm
