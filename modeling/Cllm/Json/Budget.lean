import Cllm.Json.Run

namespace Cllm.Json

open Libc Trace

def Event.cost : Event → Nat
  | .next => 1
  | .byte _ _ _ | .entry _ _ => 0

/-- A call of json_next_token costs one, a write has to be inside its array, and the turns do not
run out. -/
def parsing : Contract Event Fault where
  cost := Event.cost
  allowed := Event.allowed
  fails e := e=.invalid

theorem total_parsing (es : List Event) : parsing.total es=calls es := by
  induction es with
  | nil => rfl
  | cons e es ih =>
    have hcons : parsing.total (e::es)=e.cost+parsing.total es := List.sum_cons
    rw [hcons,ih,calls,calls,List.count_cons]
    cases e with
    | next => exact Nat.add_comm 1 _
    | byte size index c => exact Nat.zero_add _
    | entry size index => exact Nat.zero_add _

variable {δ φ : Type} [Double δ φ]

/-- The calls of json_next_token that are left: none behind the last token or an error. -/
def Parser.budget (p : Parser δ) : Nat :=
  if p.current=.eof ∨ p.current=.error then 0 else p.len-p.pos+1

structure Ready (p : Parser δ) (b : Nat) : Prop where
  within : p.Within
  budget : p.budget ≤ b

variable {p : Parser δ} {b : Nat}

theorem jsonNextToken_len (p : Parser δ) : (jsonNextToken p).len=p.len :=
  (jsonNextToken_source p).2

/-- A token that is no end leaves one character less. -/
theorem next_shorter (hw : p.Within) (he : (jsonNextToken p).current≠.eof)
    (hn : (jsonNextToken p).current≠.error) :
    (jsonNextToken p).len-(jsonNextToken p).pos < p.len-p.pos := by
  have hsees := jsonNextToken_sees hw
  rw [hsees.current] at he
  have hlen := lex_length he (by rw [← hsees.current]; exact hn)
  have hrest := Parser.length_suffix (i := (jsonNextToken p).pos) hsees.within.len
  have hrest' := Parser.length_suffix (i := p.pos) hw.len
  have hs : (jsonNextToken p).suffix (jsonNextToken p).pos=(lex p.rest).2 := hsees.rest hn
  rw [hs] at hrest
  rw [Parser.rest] at hlen hrest
  omega

theorem budget_next (hw : p.Within) : (jsonNextToken p).budget ≤ p.len-p.pos := by
  rw [Parser.budget]
  split_ifs with h
  · exact Nat.zero_le _
  · rw [not_or] at h
    exact next_shorter hw h.1 h.2

namespace Run

theorem jsonNextToken_spec (h : Ready p b) (he : p.current≠.eof) (hn : p.current≠.error) :
    parsing.Triple b (jsonNextToken p) fun q c => Ready q c ∧ c < b := by
  have hb : p.len-p.pos+1 ≤ b := by
    have hbudget := h.budget
    rw [Parser.budget,if_neg (not_or.mpr ⟨he,hn⟩)] at hbudget
    exact hbudget
  have hq := budget_next h.within
  have hcost : parsing.total [Event.next]=1 := rfl
  apply Contract.Triple.emit
  · intro e he
    rw [List.mem_singleton.mp he]
    trivial
  · omega
  · rw [hcost]
    exact ⟨⟨(jsonNextToken_sees h.within).within,by omega⟩,by omega⟩

/-- The first call of all. -/
theorem init_spec (body : List UInt8) {len : Nat} (h : len ≤ body.length) :
    parsing.Triple (len+1) (jsonNextToken (Parser.init body len : Parser δ)) fun q c =>
      Ready q c ∧ c < len+1 := by
  have hw : (Parser.init body len : Parser δ).Within := ⟨Nat.zero_le _,h⟩
  have hq := budget_next hw
  have hcost : parsing.total [Event.next]=1 := rfl
  apply Contract.Triple.emit
  · intro e he
    rw [List.mem_singleton.mp he]
    trivial
  · omega
  · rw [hcost]
    exact ⟨⟨(jsonNextToken_sees hw).within,hq⟩,by omega⟩

theorem skipComma_spec (h : Ready p b) :
    parsing.Triple b (skipComma p) fun q c => Ready q c := by
  rw [skipComma]
  split_ifs with hc
  · have hnext := jsonNextToken_spec h (by rw [hc]; decide) (by rw [hc]; decide)
    exact hnext.mono fun q c _ hq => hq.1
  · exact .pure h

/-- Skipping needs two turns of the model for each call that is left. -/
theorem skip_spec (fuel : Nat) :
    (∀ {p : Parser δ} {b},Ready p b → 2*b+1 ≤ fuel →
      parsing.Triple b (jsonSkipValue fuel p) fun q c => Ready q c ∧ c < b) ∧
    (∀ {p : Parser δ} {b},Ready p b → 2*b+2 ≤ fuel →
      parsing.Triple b (skipMembers fuel p) fun q c => Ready q c) ∧
    (∀ {p : Parser δ} {b},Ready p b → 2*b+2 ≤ fuel →
      parsing.Triple b (skipElements fuel p) fun q c => Ready q c) := by
  induction fuel with
  | zero =>
    refine ⟨fun _ hf => ?_,fun _ hf => ?_,fun _ hf => ?_⟩
    all_goals omega
  | succ fuel ih =>
    obtain ⟨ihv,ihm,ihe⟩ := ih
    refine ⟨?_,?_,?_⟩
    · intro p b h hf
      rw [jsonSkipValue]
      cases hc : p.current with
      | lbrace =>
        have hnext := jsonNextToken_spec h (by rw [hc]; decide) (by rw [hc]; decide)
        refine hnext.bind fun q c _ hq => ?_
        exact (ihm hq.1 (by omega)).mono fun q' c' hle hq' => ⟨hq',by omega⟩
      | lbracket =>
        have hnext := jsonNextToken_spec h (by rw [hc]; decide) (by rw [hc]; decide)
        refine hnext.bind fun q c _ hq => ?_
        exact (ihe hq.1 (by omega)).mono fun q' c' hle hq' => ⟨hq',by omega⟩
      | string | number | true | false | null =>
        exact jsonNextToken_spec h (by rw [hc]; decide) (by rw [hc]; decide)
      | rbrace | rbracket | colon | comma | eof | error => exact .fail rfl
    · intro p b h hf
      rw [skipMembers]
      split_ifs with hb he hs
      · have hnext := jsonNextToken_spec h (by rw [hb]; decide) (by rw [hb]; decide)
        exact hnext.mono fun q c _ hq => hq.1
      · exact .pure h
      · exact .fail rfl
      · have hs' := not_not.mp hs
        have hnext := jsonNextToken_spec h (by rw [hs']; decide) (by rw [hs']; decide)
        refine hnext.bind fun colon c hcb hq => ?_
        split_ifs with hcol
        · exact .fail rfl
        · have hcol' := not_not.mp hcol
          have hnext' := jsonNextToken_spec hq.1 (by rw [hcol']; decide) (by rw [hcol']; decide)
          refine hnext'.bind fun q c₁ _ hq₁ => ?_
          refine (ihv hq₁.1 (by omega)).bind fun q c₂ _ hq₂ => ?_
          refine (skipComma_spec hq₂.1).bind fun q c₃ _ hq₃ => ?_
          exact ihm hq₃ (by omega)
    · intro p b h hf
      rw [skipElements]
      split_ifs with hb he
      · have hnext := jsonNextToken_spec h (by rw [hb]; decide) (by rw [hb]; decide)
        exact hnext.mono fun q c _ hq => hq.1
      · exact .pure h
      · refine (ihv h (by omega)).bind fun q c _ hq => ?_
        refine (skipComma_spec hq.1).bind fun q c₁ _ hq₁ => ?_
        exact ihe hq₁ (by omega)

theorem bytesFrom_spec (size i : Nat) (cs : List UInt8) (h : i+cs.length ≤ size) :
    (∀ e∈bytesFrom size i cs,parsing.allowed e) ∧ parsing.total (bytesFrom size i cs)=0 := by
  induction cs generalizing i with
  | nil => exact ⟨fun e he => absurd he List.not_mem_nil,rfl⟩
  | cons c cs ih =>
    rw [List.length_cons] at h
    obtain ⟨hallowed,htotal⟩ := ih (i+1) (by omega)
    refine ⟨?_,?_⟩
    · intro e he
      obtain rfl | he := List.mem_cons.mp he
      · exact (by omega : i < size)
      · exact hallowed e he
    · change 0+parsing.total (bytesFrom size (i+1) cs)=0
      rw [htotal]

theorem replay_bytesFrom (size : Nat) (cs : List UInt8) {i : Nat} {buf : List UInt8}
    (h : i+cs.length ≤ buf.length) :
    replay buf (bytesFrom size i cs)=buf.take i++(cs++buf.drop (i+cs.length)) := by
  induction cs generalizing i buf with
  | nil => simp [bytesFrom,replay]
  | cons c cs ih =>
    rw [List.length_cons] at h
    have hset : (buf.set i c).take (i+1)=buf.take i++[c] := by
      rw [List.set_eq_take_append_cons_drop,if_pos (by omega)]
      have hlen : (buf.take i++[c]).length=i+1 := by
        simp only [List.length_append,List.length_take,List.length_singleton]
        omega
      rw [← List.singleton_append,← List.append_assoc]
      exact List.take_left' hlen
    rw [bytesFrom,replay,ih (by rw [List.length_set]; omega),hset,
      List.drop_set_of_lt (by omega),List.length_cons]
    simp [Nat.add_assoc,Nat.add_comm 1]

/-- The bytes that strncpy writes are the field's. -/
theorem copyString_strncpy (size : Nat) (h : 0 < size) (s : List UInt8) :
    (strncpy s (if s.length < size-1 then s.length else size-1)).getD []=
      (copyString size h s).bytes := by
  have hmin : (if s.length < size-1 then s.length else size-1)=min s.length (size-1) := by
    split_ifs <;> omega
  rw [hmin]
  exact CField.copyWithin_strncpy ..

theorem copyStores_eq (size : Nat) (h : 0 < size) (s : List UInt8) :
    copyStores size s=bytesFrom size 0 ((copyString size h s).bytes++[0]) := by
  rw [← copyString_strncpy size h s]
  rfl

theorem copyStores_spec (size : Nat) (h : 0 < size) (s : List UInt8) :
    (∀ e∈copyStores size s,parsing.allowed e) ∧ parsing.total (copyStores size s)=0 := by
  have hfits := (copyString size h s).fits
  rw [copyStores_eq size h s]
  apply bytesFrom_spec
  rw [List.length_append,List.length_singleton]
  omega

/-- A copy leaves the bytes of the field in its array, and a NUL behind them. -/
theorem replay_copyStores {size : Nat} (h : 0 < size) (s : List UInt8) (buf : Buffer size) :
    (replay buf.bytes (copyStores size s)).take ((copyString size h s).bytes.length+1)=
      (copyString size h s).bytes++[0] := by
  have hfits := (copyString size h s).fits
  have hlen : ((copyString size h s).bytes++[0]).length=(copyString size h s).bytes.length+1 :=
    List.length_append
  have hsize := buf.size
  rw [copyStores_eq size h s,replay_bytesFrom _ _ (by omega),List.take_zero,List.nil_append]
  exact List.take_left' hlen

/-- A value of one token is read with one call. -/
theorem token_spec {α : Type} (h : Ready p b) (he : p.current≠.eof) (hn : p.current≠.error)
    (a : α) : parsing.Triple b (do
      let q ← jsonNextToken p
      pure (a,q)) fun r c => Ready r.2 c ∧ c < b := by
  refine (jsonNextToken_spec h he hn).bind fun q c _ hq => ?_
  exact .pure hq

theorem jsonParseString_spec (size : Nat) (hsize : 0 < size) (h : Ready p b) :
    parsing.Triple b (jsonParseString size hsize p) fun r c => Ready r.2 c ∧ c < b := by
  obtain ⟨hallowed,htotal⟩ := copyStores_spec size hsize p.stringBuf.bytes
  rw [jsonParseString]
  split_ifs with hc
  · have hcopy : parsing.Triple b (.emit (copyStores size p.stringBuf.bytes)
        (copyString size hsize p.stringBuf.bytes)) fun _ c => c=b := by
      apply Contract.Triple.emit hallowed
      · omega
      · omega
    refine hcopy.bind fun v c _ hcb => ?_
    subst hcb
    exact token_spec h (by rw [hc]; decide) (by rw [hc]; decide) v
  · exact .fail rfl

theorem jsonParseNumber_spec (h : Ready p b) :
    parsing.Triple b (jsonParseNumber p) fun r c => Ready r.2 c ∧ c < b := by
  rw [jsonParseNumber]
  split_ifs with hc
  · exact token_spec h (by rw [hc]; decide) (by rw [hc]; decide) _
  · exact .fail rfl

theorem jsonParseInt_spec (h : Ready p b) :
    parsing.Triple b (jsonParseInt p) fun r c => Ready r.2 c ∧ c < b := by
  rw [jsonParseInt]
  split_ifs with hc
  · exact token_spec h (by rw [hc]; decide) (by rw [hc]; decide) _
  · exact .fail rfl

theorem jsonParseBool_spec (h : Ready p b) :
    parsing.Triple b (jsonParseBool p) fun r c => Ready r.2 c ∧ c < b := by
  rw [jsonParseBool]
  split_ifs with ht hf
  · exact token_spec h (by rw [ht]; decide) (by rw [ht]; decide) _
  · exact token_spec h (by rw [hf]; decide) (by rw [hf]; decide) _
  · exact .fail rfl

end Run

end Cllm.Json
