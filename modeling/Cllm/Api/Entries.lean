import Cllm.Api.Fields
import Cllm.Api.Leniency

namespace Cllm.Api

open Libc Json Rfc8259

variable {δ φ R : Type} [Double δ φ]

/-- What stands in such an array: each takes one of the `limit` places of the request. -/
structure Entry (δ : Type) {φ R : Type} [Double δ φ] (count : R → Nat) (limit : Nat) where
  element : (fuel : Nat) → Parser δ → (r : R) → ¬limit≤count r → Except Fault (Parser δ × R)
  admits : Value → Prop
  meaning : Value → R → R
  keep : Value → Value
  runs : ∀ {v s rest r fuel} {p : Parser δ},admits v → (h : ¬limit≤count r) →
    Spaced v.texts s rest → Delimited rest → Sees p s → 2*s.length+1 ≤ fuel →
    ∃ q,element fuel p r h=.ok (q,meaning v r) ∧ Sees q rest
  blocking : ∀ {v s rest},admits v → Spaced v.texts s rest → Delimited rest → Blocking (lex s).1
  count_meaning : ∀ {v r},admits v → ¬limit≤count r → count (meaning v r)=count r+1
  keep_same : ∀ {v},admits v → admits (keep v) ∧ ∀ r,meaning (keep v) r=meaning v r

theorem spaced_afterComma_elements {es : Elements} {s rest : List UInt8}
    (h : Spaced es.more s rest) : Delimited s ∧ Spaced es.texts (afterComma s) rest := by
  cases es with
  | nil => exact spaced_close (k := .rbracket) rfl (by decide) h
  | cons v es => exact spaced_comma h

/-- One turn of the loop, over an element. -/
theorem parseElements_element {v : Value} {es : Elements} {s rest : List UInt8} {p : Parser δ}
    (hs : Spaced (Elements.cons v es).texts s rest) (hp : Sees p s) :
    ∃ s₁,Spaced v.texts s s₁ ∧ Delimited s₁ ∧ Spaced es.texts (afterComma s₁) rest ∧
      (afterComma s₁).length < s.length ∧
      ∀ (full : R → Prop) [DecidablePred full]
        (element : (fuel : Nat) → Parser δ → (r : R) → ¬full r → Except Fault (Parser δ × R))
        (r : R) (fuel : Nat),
        parseElements full element (fuel+1) p r=
          if h : full r then .ok (p,r)
          else
            match element fuel p r h with
            | .error e => .error e
            | .ok (q,r) => parseElements full element fuel (skipComma q) r := by
  obtain ⟨s₁,hv,hm⟩ := spaced_append.mp hs
  obtain ⟨hdel,hnext⟩ := spaced_afterComma_elements hm
  have hlen := Value.lenient v hv hdel
  have hlen₁ := hlen.length.2 rfl
  have hlen₂ := afterComma_length s₁
  refine ⟨s₁,hv,hdel,hnext,by omega,?_⟩
  intro full _ element r fuel
  have hb : ¬p.current=.rbracket := by
    rw [hp.current]
    exact hlen.start.2.2.2 .bracket
  have heof : ¬p.current=.eof := by
    rw [hp.current]
    exact hlen.start.1
  exact (if_neg hb).trans (if_neg heof)

namespace Entry

variable {count : R → Nat} {limit : Nat} (e : Entry δ count limit)

/-- What the elements make of a request, in their order. -/
def meanings (vs : List Value) (r : R) : R := vs.foldl (fun r v => e.meaning v r) r

theorem count_meanings {vs : List Value} {r : R} (ha : ∀ v∈vs,e.admits v)
    (hc : vs.length ≤ limit-count r) : count (e.meanings vs r)=count r+vs.length := by
  induction vs generalizing r with
  | nil => rfl
  | cons v vs ih =>
    rw [List.forall_mem_cons] at ha
    rw [List.length_cons] at hc
    have hv := e.count_meaning (r := r) ha.1 (by omega)
    have hvs := ih (r := e.meaning v r) ha.2 (by omega)
    rw [List.length_cons]
    change count (e.meanings vs (e.meaning v r))=_
    omega

theorem room_meanings {vs : List Value} {r : R} (ha : ∀ v∈vs,e.admits v)
    (hc : vs.length ≤ limit-count r) : limit-count (e.meanings vs r)+vs.length=limit-count r := by
  have h := e.count_meanings ha hc
  omega

theorem keeps {vs : List Value} (ha : ∀ v∈vs,e.admits v) :
    (∀ v∈vs.map e.keep,e.admits v) ∧ ∀ r,e.meanings (vs.map e.keep) r=e.meanings vs r := by
  induction vs with
  | nil => exact ⟨fun v hv => (by cases hv),fun r => rfl⟩
  | cons v vs ih =>
    rw [List.forall_mem_cons] at ha
    have hk := e.keep_same ha.1
    have ih := ih ha.2
    refine ⟨?_,fun r => ?_⟩
    · rw [List.map_cons,List.forall_mem_cons]
      exact ⟨hk.1,ih.1⟩
    · change e.meanings (vs.map e.keep) (e.meaning (e.keep v) r)=_
      rw [hk.2,ih.2]
      rfl

theorem parseElements_runs : (es : Elements) → {s rest : List UInt8} → {p : Parser δ} → {r : R} →
    {fuel : Nat} → (∀ v∈es.toList,e.admits v) → es.toList.length ≤ limit-count r →
    Spaced es.texts s rest → Sees p s → 2*s.length+2 ≤ fuel →
    ∃ q,parseElements (fun r => limit≤count r) e.element fuel p r=
      .ok (q,e.meanings es.toList r) ∧ Sees q rest
  | .nil,s,rest,p,r,fuel,_,_,hs,hp,hf => by
    obtain ⟨fuel,rfl⟩ := Nat.exists_eq_add_of_le' hf
    obtain ⟨hl,hr⟩ := lex_of_spaced (k := .rbracket) rfl hs
    have hn := hp.next (by rw [hl]; decide)
    have hr : (lex s).2=rest := hr
    rw [hr] at hn
    refine ⟨jsonNextToken p,?_,hn⟩
    change parseElements _ e.element (fuel+(2*s.length+1)+1) p r=_
    rw [parseElements,if_pos (hp.current.trans hl)]
    rfl
  | .cons v es,s,rest,p,r,fuel,ha,hc,hs,hp,hf => by
    obtain ⟨fuel,rfl⟩ := Nat.exists_eq_add_of_le' hf
    obtain ⟨s₁,hv,hdel,hnext,hlen,hturn⟩ := parseElements_element (R := R) hs hp
    rw [Elements.toList,List.forall_mem_cons] at ha
    rw [Elements.toList,List.length_cons] at hc
    have hroom : ¬limit≤count r := by omega
    have hcount := e.count_meaning ha.1 hroom
    have hc' : es.toList.length ≤ limit-count (e.meaning v r) := by omega
    have hf₁ : 2*s.length+1 ≤ fuel+(2*s.length+1) := by omega
    have hf₂ : 2*(afterComma s₁).length+2 ≤ fuel+(2*s.length+1) := by omega
    obtain ⟨q,hq,hq₁⟩ := e.runs ha.1 hroom hv hdel hp hf₁
    obtain ⟨q',hq',hq₁'⟩ := parseElements_runs es ha.2 hc' hnext (skipComma_sees hq₁) hf₂
    refine ⟨q',?_,hq₁'⟩
    change parseElements _ e.element (fuel+(2*s.length+1)+1) p r=_
    rw [hturn,dif_neg hroom,hq]
    exact hq'

/-- With more elements than places, the loop ends in front of the first that has none. -/
theorem parseElements_overflows : (es : Elements) → {s rest : List UInt8} → {p : Parser δ} →
    {r : R} → {fuel : Nat} → (∀ v∈es.toList,e.admits v) → limit-count r<es.toList.length →
    Spaced es.texts s rest → Sees p s → 2*s.length+2 ≤ fuel →
    ∃ q r',parseElements (fun r => limit≤count r) e.element fuel p r=.ok (q,r') ∧
      Blocking q.current
  | .nil,s,rest,p,r,fuel,_,hc,_,_,_ => absurd hc (Nat.not_lt_zero _)
  | .cons v es,s,rest,p,r,fuel,ha,hc,hs,hp,hf => by
    obtain ⟨fuel,rfl⟩ := Nat.exists_eq_add_of_le' hf
    obtain ⟨s₁,hv,hdel,hnext,hlen,hturn⟩ := parseElements_element (R := R) hs hp
    rw [Elements.toList,List.forall_mem_cons] at ha
    rw [Elements.toList,List.length_cons] at hc
    have hturn := hturn (fun r => limit≤count r) e.element r (fuel+(2*s.length+1))
    by_cases hroom : limit≤count r
    · refine ⟨p,r,?_,?_⟩
      · exact hturn.trans (dif_pos hroom)
      · rw [hp.current]
        exact e.blocking ha.1 hv hdel
    · have hcount := e.count_meaning ha.1 hroom
      have hc' : limit-count (e.meaning v r)<es.toList.length := by omega
      have hf₁ : 2*s.length+1 ≤ fuel+(2*s.length+1) := by omega
      have hf₂ : 2*(afterComma s₁).length+2 ≤ fuel+(2*s.length+1) := by omega
      obtain ⟨q,hq,hq₁⟩ := e.runs ha.1 hroom hv hdel hp hf₁
      obtain ⟨q',r',hq',hb⟩ := parseElements_overflows es ha.2 hc' hnext (skipComma_sees hq₁) hf₂
      refine ⟨q',r',?_,hb⟩
      rw [dif_neg hroom,hq] at hturn
      exact hturn.trans hq'

theorem arrayMember_runs {es : Elements} {s rest : List UInt8} {p : Parser δ} {r : R} {fuel : Nat}
    (ha : ∀ v∈es.toList,e.admits v) (hc : es.toList.length ≤ limit-count r)
    (hs : Spaced (Value.array es).texts s rest) (hp : Sees p s) (hf : 2*s.length+1 ≤ fuel) :
    ∃ q,arrayMember (fun r => limit≤count r) e.element fuel p r=
      .ok (q,e.meanings es.toList r) ∧ Sees q rest := by
  obtain ⟨hl,hes⟩ := lex_of_spaced (k := .lbracket) rfl hs
  have hlen := lex_length (s := s) (by rw [hl]; decide) (by rw [hl]; decide)
  have hf' : 2*(lex s).2.length+2 ≤ fuel := by omega
  obtain ⟨q,hq,hq₁⟩ := e.parseElements_runs es ha hc hes (hp.next (by rw [hl]; decide)) hf'
  refine ⟨q,?_,hq₁⟩
  have hopen : ¬p.current≠.lbracket := not_not.mpr (hp.current.trans hl)
  rw [arrayMember,if_neg hopen,hq]

theorem arrayMember_overflows {es : Elements} {s rest : List UInt8} {p : Parser δ} {r : R}
    {fuel : Nat} (ha : ∀ v∈es.toList,e.admits v) (hc : limit-count r<es.toList.length)
    (hs : Spaced (Value.array es).texts s rest) (hp : Sees p s) (hf : 2*s.length+1 ≤ fuel) :
    ∃ q r',arrayMember (fun r => limit≤count r) e.element fuel p r=.ok (q,r') ∧
      Blocking q.current := by
  obtain ⟨hl,hes⟩ := lex_of_spaced (k := .lbracket) rfl hs
  have hlen := lex_length (s := s) (by rw [hl]; decide) (by rw [hl]; decide)
  have hf' : 2*(lex s).2.length+2 ≤ fuel := by omega
  obtain ⟨q,r',hq,hb⟩ := e.parseElements_overflows es ha hc hes (hp.next (by rw [hl]; decide)) hf'
  refine ⟨q,r',?_,hb⟩
  have hopen : ¬p.current≠.lbracket := not_not.mpr (hp.current.trans hl)
  rw [arrayMember,if_neg hopen,hq]

end Entry

/-- The field of an array whose elements are stored while there is room. -/
def Field.array {count : R → Nat} {limit : Nat} (name : List UInt8) (e : Entry δ count limit) :
    Field δ (fun r => limit-count r) where
  name := name
  handler := arrayMember (fun r => limit≤count r) e.element
  admits v := ∃ es,v=.array es ∧ ∀ v∈es.toList,e.admits v
  cost v :=
    match v with
    | .array es => es.toList.length
    | _ => 0
  meaning v r :=
    match v with
    | .array es => e.meanings es.toList r
    | _ => r
  keep v :=
    match v with
    | .array es => .array (es.map e.keep)
    | v => v
  runs := by
    intro v s rest r fuel p hv hc hs _ hp hf
    obtain ⟨es,rfl,ha⟩ := hv
    exact e.arrayMember_runs ha hc hs hp hf
  overflows := by
    intro v s rest r fuel p hv hc hs hp hf
    obtain ⟨es,rfl,ha⟩ := hv
    exact e.arrayMember_overflows ha hc hs hp hf
  room_meaning := by
    intro v r hv hc
    obtain ⟨es,rfl,ha⟩ := hv
    exact e.room_meanings ha hc
  keep_same := by
    intro v hv
    obtain ⟨es,rfl,ha⟩ := hv
    have hk := e.keeps ha
    refine ⟨⟨es.map e.keep,rfl,?_⟩,?_,fun r => ?_⟩
    · rw [Elements.toList_map]
      exact hk.1
    · change (es.map e.keep).toList.length=es.toList.length
      rw [Elements.toList_map,List.length_map]
    · change e.meanings (es.map e.keep).toList r=e.meanings es.toList r
      rw [Elements.toList_map]
      exact hk.2 r

end Cllm.Api
