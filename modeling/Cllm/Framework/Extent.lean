import Mathlib.Order.CompletePartialOrder
import Mathlib.Order.Interval.Set.Disjoint
import Mathlib.Order.Interval.Set.LinearOrder
import Mathlib.Tactic.Order

namespace Cllm

/-- A nonempty half-open range of a linear order. -/
@[ext] structure Extent (α : Type*) [LinearOrder α] where
  start : α
  stop : α
  proper : start<stop
  deriving DecidableEq

namespace Extent

variable {α : Type*} [LinearOrder α]

def range (e : Extent α) : Set α := Set.Ico e.start e.stop

/-- The ranges do not overlap. -/
def Apart (e f : Extent α) : Prop := e.stop≤f.start ∨ f.stop≤e.start

/-- The first ends before the second begins, and something is in between. -/
def Before (e f : Extent α) : Prop := e.stop<f.start

/-- The first ends before the second begins, or where it does. -/
def Upto (e f : Extent α) : Prop := e.stop≤f.start

/-- Everything in some extent of the list. -/
def covered (es : List (Extent α)) : Set α := {x | ∃ e∈es,x∈e.range}

/-- Two extents that touch, as one. -/
def join (e f : Extent α) (h : e.stop=f.start) : Extent α :=
  ⟨e.start,f.stop,e.proper.trans (h ▸ f.proper)⟩

/-- Insertion by start. -/
def place (e : Extent α) : List (Extent α) → List (Extent α)
  | [] => [e]
  | f::fs => if f.start<e.start then f::place e fs else e::f::fs

/-- One pass that joins each extent with those that touch it. -/
def coalesce : List (Extent α) → List (Extent α)
  | [] => []
  | [e] => [e]
  | e::f::fs => if h : e.stop=f.start then coalesce (e.join f h::fs) else e::coalesce (f::fs)
termination_by es => es.length

theorem Apart.symm {e f : Extent α} (h : Apart e f) : Apart f e := Or.symm h

theorem Before.apart {e f : Extent α} (h : Before e f) : Apart e f := .inl (le_of_lt h)

theorem apart_iff_disjoint {e f : Extent α} : Apart e f ↔ Disjoint e.range f.range := by
  rw [range,range,Set.Ico_disjoint_Ico]
  have he := e.proper
  have hf := f.proper
  rw [Apart]
  constructor
  · rintro (h|h)
    · exact (min_le_left _ _).trans (h.trans (le_max_right _ _))
    · exact (min_le_right _ _).trans (h.trans (le_max_left _ _))
  · intro h
    rcases min_le_iff.mp h with h|h
    · rcases le_max_iff.mp h with h|h
      · order
      · exact .inl h
    · rcases le_max_iff.mp h with h|h
      · exact .inr h
      · order

section Covered

variable {e : Extent α} {es fs : List (Extent α)} {x : α}

@[simp] theorem mem_range : x∈e.range ↔ e.start≤x ∧ x<e.stop := Iff.rfl

@[simp] theorem mem_covered : x∈covered es ↔ ∃ e∈es,x∈e.range := Iff.rfl

@[simp] theorem covered_nil : covered ([] : List (Extent α))=∅ := by
  ext x
  simp

@[simp] theorem covered_cons : covered (e::es)=e.range∪covered es := by
  ext x
  simp only [mem_covered,List.mem_cons,exists_eq_or_imp,Set.mem_union]

@[simp] theorem covered_append : covered (es++fs)=covered es∪covered fs := by
  ext x
  simp only [mem_covered,List.mem_append,or_and_right,exists_or,Set.mem_union]

theorem covered_perm (h : es.Perm fs) : covered es=covered fs := by
  ext x
  simp only [mem_covered,h.mem_iff]

theorem range_join {f : Extent α} (h : e.stop=f.start) : (e.join f h).range=e.range∪f.range := by
  have he := e.proper
  have hf := f.proper
  rw [range,range,range,h]
  exact (Set.Ico_union_Ico_eq_Ico (h ▸ he.le) hf.le).symm

theorem place_perm (e : Extent α) (es : List (Extent α)) : (place e es).Perm (e::es) := by
  induction es with
  | nil => exact .refl _
  | cons f fs ih =>
    rw [place]
    split_ifs
    · exact (ih.cons f).trans (.swap e f fs)
    · exact .refl _

theorem mem_place {f : Extent α} : f∈place e es ↔ f=e ∨ f∈es := by
  rw [(place_perm e es).mem_iff,List.mem_cons]

/-- Joining loses nothing and adds nothing. -/
theorem covered_coalesce (es : List (Extent α)) : covered (coalesce es)=covered es := by
  fun_induction coalesce es with
  | case1 => rfl
  | case2 e => rfl
  | case3 e f fs h ih =>
    rw [ih,covered_cons,covered_cons,covered_cons,range_join,Set.union_assoc]
  | case4 e f fs h ih => rw [covered_cons,ih,← covered_cons]

end Covered

section Order

variable {e f : Extent α} {es : List (Extent α)}

theorem range_subset_covered (h : e∈es) : e.range⊆covered es := fun _ hx => ⟨e,h,hx⟩

theorem forall_apart_iff : (∀ f∈es,Apart e f) ↔ Disjoint e.range (covered es) := by
  rw [Set.disjoint_left]
  constructor
  · rintro h x hx ⟨f,hf,hxf⟩
    exact Set.disjoint_left.mp (apart_iff_disjoint.mp (h f hf)) hx hxf
  · intro h f hf
    rw [apart_iff_disjoint,Set.disjoint_left]
    exact fun x hx hxf => h hx ⟨f,hf,hxf⟩

/-- Extents that overlap in nothing have different starts. -/
theorem Apart.start_ne (h : Apart e f) : e.start≠f.start := by
  have he := e.proper
  have hf := f.proper
  rcases h with h|h
  · exact (he.trans_le h).ne
  · exact (hf.trans_le h).ne'

/-- Of two members of a separated list one is before the other. -/
theorem separated_mem (h : es.Pairwise Before) (he : e∈es) (hf : f∈es) :
    e=f ∨ Before e f ∨ Before f e := by
  induction es with
  | nil => cases he
  | cons g gs ih =>
    rw [List.pairwise_cons] at h
    rw [List.mem_cons] at he hf
    rcases he with rfl|he
    · rcases hf with rfl|hf
      · exact .inl rfl
      · exact .inr (.inl (h.1 f hf))
    · rcases hf with rfl|hf
      · exact .inr (.inr (h.1 e he))
      · exact ih h.2 he hf

/-- A range without a hole in separated extents is in one of them. -/
theorem subset_range_of_separated (h : es.Pairwise Before) {a b : α} (hab : a<b)
    (hc : Set.Ico a b⊆covered es) : ∃ e∈es,e.start≤a ∧ b≤e.stop := by
  obtain ⟨e,he,hstart,hstop⟩ := hc ⟨le_rfl,hab⟩
  refine ⟨e,he,hstart,?_⟩
  by_contra hlt
  -- the end of `e` would be in another extent, which touches `e` or overlaps it
  obtain ⟨f,hf,hfs,hft⟩ := hc ⟨hstop.le,not_le.mp hlt⟩
  rcases separated_mem h he hf with rfl|hb|hb
  · exact absurd hft (lt_irrefl _)
  · exact absurd hb hfs.not_gt
  · have hb' : f.stop<e.start := hb
    order

/-- Separated extents are known from what they cover. -/
theorem eq_of_covered {fs : List (Extent α)} (h : es.Pairwise Before) (h' : fs.Pairwise Before)
    (hc : covered es=covered fs) : es=fs := by
  have hsub {es fs : List (Extent α)} (h : es.Pairwise Before) (h' : fs.Pairwise Before)
      (hc : covered es=covered fs) : es⊆fs := by
    intro e he
    -- an extent of the other list that contains it, and one of this list that contains that one
    obtain ⟨f,hf,hstart,hstop⟩ :=
      subset_range_of_separated h' e.proper (hc ▸ range_subset_covered he)
    obtain ⟨g,hg,hgstart,hgstop⟩ :=
      subset_range_of_separated h f.proper (hc.symm ▸ range_subset_covered hf)
    have hp := e.proper
    have hge : g=e := by
      rcases separated_mem h hg he with hge|hb|hb
      · exact hge
      · have hb' : g.stop<e.start := hb
        order
      · have hb' : e.stop<g.start := hb
        order
    subst hge
    have hfe : f=g := Extent.ext (hstart.antisymm hgstart) (hgstop.antisymm hstop)
    exact hfe ▸ hf
  have hnodup {es : List (Extent α)} (h : es.Pairwise Before) : es.Nodup := by
    apply h.imp
    rintro e f (hb : e.stop<f.start) rfl
    exact absurd e.proper hb.not_gt
  have hanti (e f : Extent α) (hef : Before e f) (hfe : Before f e) : e=f := by
    have hef' : e.stop<f.start := hef
    have hfe' : f.stop<e.start := hfe
    have hp := e.proper
    have hp' := f.proper
    order
  have hperm : es.Perm fs := by
    apply (List.perm_ext_iff_of_nodup (hnodup h) (hnodup h')).mpr
    exact fun e => ⟨fun he => hsub h h' hc he,fun he => hsub h' h hc.symm he⟩
  exact hperm.eq_of_pairwise (fun e f _ _ => hanti e f) h h'

theorem place_upto (h : es.Pairwise Upto) (ha : ∀ f∈es,Apart e f) :
    (place e es).Pairwise Upto := by
  induction es with
  | nil => exact List.pairwise_singleton _ _
  | cons f fs ih =>
    rw [List.pairwise_cons] at h
    rw [List.forall_mem_cons] at ha
    have he := e.proper
    have hf := f.proper
    rw [place]
    split_ifs with hlt
    · rw [List.pairwise_cons]
      refine ⟨fun g hg => ?_,ih h.2 ha.2⟩
      rcases mem_place.mp hg with rfl|hg
      · rcases ha.1 with h'|h'
        · order
        · exact h'
      · exact h.1 g hg
    · have hef : Upto e f := by
        rcases ha.1 with h'|h'
        · exact h'
        · order
      rw [List.pairwise_cons,List.pairwise_cons]
      refine ⟨fun g hg => ?_,h⟩
      rcases List.mem_cons.mp hg with rfl|hg
      · exact hef
      · exact hef.trans (hf.le.trans (h.1 g hg))

/-- Insertion is in front of the first extent that does not start earlier. -/
theorem place_split (e : Extent α) (h : es.Pairwise Upto) :
    ∃ pre post,es=pre++post ∧ place e es=pre++e::post ∧ (∀ f∈pre,f.start<e.start) ∧
      ∀ f∈post,e.start≤f.start := by
  induction es with
  | nil => exact ⟨[],[],rfl,rfl,by simp,by simp⟩
  | cons f fs ih =>
    rw [List.pairwise_cons] at h
    rw [place]
    split_ifs with hlt
    · obtain ⟨pre,post,rfl,he,hpre,hpost⟩ := ih h.2
      exact ⟨f::pre,post,rfl,by rw [he]; rfl,List.forall_mem_cons.mpr ⟨hlt,hpre⟩,hpost⟩
    · have hle := not_lt.mp hlt
      refine ⟨[],f::fs,rfl,rfl,by simp,List.forall_mem_cons.mpr ⟨hle,fun g hg => ?_⟩⟩
      exact hle.trans (f.proper.le.trans (h.1 g hg))

theorem place_append {pre post : List (Extent α)} (hpre : ∀ f∈pre,f.start<e.start)
    (hpost : ∀ f∈post,e.start≤f.start) : place e (pre++post)=pre++e::post := by
  induction pre with
  | nil =>
    cases post with
    | nil => rfl
    | cons f fs => exact if_neg (hpost f (.head _)).not_gt
  | cons f fs ih =>
    rw [List.forall_mem_cons] at hpre
    rw [List.cons_append,place,if_pos hpre.1,ih hpre.2,List.cons_append]

/-- Where a joined extent begins, some extent began, and where it ends, some extent ended. -/
theorem mem_coalesce (h : e∈coalesce es) :
    (∃ f∈es,e.start=f.start ∧ f.stop≤e.stop) ∧ ∃ f∈es,e.stop=f.stop := by
  fun_induction coalesce es with
  | case1 => cases h
  | case2 f => exact ⟨⟨e,h,rfl,le_rfl⟩,⟨e,h,rfl⟩⟩
  | case3 f g fs hfg ih =>
    obtain ⟨⟨a,ha,hstart,hlong⟩,⟨b,hb,hstop⟩⟩ := ih h
    refine ⟨?_,?_⟩
    · rcases List.mem_cons.mp ha with rfl|ha
      · have hg : f.stop<g.stop := hfg ▸ g.proper
        exact ⟨f,by simp,hstart,hg.le.trans hlong⟩
      · exact ⟨a,by simp [ha],hstart,hlong⟩
    · rcases List.mem_cons.mp hb with rfl|hb
      · exact ⟨g,by simp,hstop⟩
      · exact ⟨b,by simp [hb],hstop⟩
  | case4 f g fs hfg ih =>
    rcases List.mem_cons.mp h with rfl|h
    · exact ⟨⟨e,by simp,rfl,le_rfl⟩,⟨e,by simp,rfl⟩⟩
    · obtain ⟨⟨a,ha,hstart,hlong⟩,⟨b,hb,hstop⟩⟩ := ih h
      exact ⟨⟨a,.tail _ ha,hstart,hlong⟩,⟨b,.tail _ hb,hstop⟩⟩

/-- The pass over an ordered list leaves no two extents that touch. -/
theorem coalesce_separated (h : es.Pairwise Upto) : (coalesce es).Pairwise Before := by
  fun_induction coalesce es with
  | case1 => exact .nil
  | case2 f => exact List.pairwise_singleton _ _
  | case3 f g fs hfg ih =>
    rw [List.pairwise_cons,List.pairwise_cons] at h
    exact ih (List.pairwise_cons.mpr ⟨h.2.1,h.2.2⟩)
  | case4 f g fs hfg ih =>
    rw [List.pairwise_cons] at h
    rw [List.pairwise_cons]
    refine ⟨fun x hx => ?_,ih h.2⟩
    obtain ⟨⟨a,ha,hstart,-⟩,-⟩ := mem_coalesce hx
    have hfirst : f.stop<g.start := lt_of_le_of_ne (h.1 g (.head _)) hfg
    have hlater : g.start≤a.start := by
      rcases List.mem_cons.mp ha with rfl|ha
      · exact le_rfl
      · exact g.proper.le.trans ((List.pairwise_cons.mp h.2).1 a ha)
    exact hfirst.trans_le (hlater.trans_eq hstart.symm)

end Order

end Extent

end Cllm
