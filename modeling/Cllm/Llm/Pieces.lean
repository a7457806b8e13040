import Cllm.Llm.Llama

namespace Cllm.Llama

open Libc

section

variable (L : Script)

/-- What a token stands for: llama_vocab_get_text, up to its NUL. -/
def piece (token : Int32) : List UInt8 := cut (L.text token)

/-- The loop of llm_detokenize: the bytes in front of `offset`. -/
def detokenizeLoop (textSize : Nat) : (tokens : List Int32) → (text : List UInt8) → List UInt8
  | [],text => text
  | token::tokens,text =>
    if text.length+1 < textSize then
      let len :=
        if text.length+(piece L token).length ≥ textSize then textSize-text.length-1
        else (piece L token).length
      detokenizeLoop textSize tokens (text++(piece L token).take len)
    else text

/-- llm_detokenize: the bytes in front of the NUL, as many as it returns; `none` is -1. -/
def llmDetokenize (tokens : List Int32) (textSize : Nat) : Option (List UInt8) :=
  if tokens=[] ∨ textSize=0 then none else some (detokenizeLoop L textSize tokens [])

end

section Detokenize

variable (L : Script) {textSize : Nat}

theorem detokenizeLoop_take (tokens : List Int32) {text : List UInt8}
    (h : text.length < textSize) :
    detokenizeLoop L textSize tokens text=(text++tokens.flatMap (piece L)).take (textSize-1) := by
  induction tokens generalizing text with
  | nil =>
    rw [detokenizeLoop,List.flatMap_nil,List.append_nil,List.take_of_length_le (by omega)]
  | cons token tokens ih =>
    rw [detokenizeLoop,List.flatMap_cons]
    by_cases hroom : text.length+1 < textSize
    · rw [if_pos hroom]
      dsimp only
      by_cases hcut : text.length+(piece L token).length ≥ textSize
      · -- the piece is cut, and the rest of the tokens finds no room
        have hlen : (text++(piece L token).take (textSize-text.length-1)).length=textSize-1 := by
          rw [List.length_append,List.length_take]
          omega
        rw [if_pos hcut,ih (by omega),List.take_append_of_le_length hlen.ge,
          List.take_of_length_le hlen.le,← List.append_assoc,
          List.take_append_of_le_length (by rw [List.length_append]; omega),List.take_append,
          List.take_of_length_le (by omega : text.length ≤ textSize-1)]
        congr 2
        omega
      · rw [if_neg hcut,List.take_length,ih (by rw [List.length_append]; omega),
          List.append_assoc]
    · rw [if_neg hroom,List.take_append_of_le_length (by omega),
        List.take_of_length_le (by omega)]

end Detokenize

/-- Why llm_generate takes no token in turn `i`, with so much put out: the sampler has none, the
text is at its end, or the piece does not fit. -/
def Ends (L : Script) (outputSize : Nat) (output : List UInt8) (i : Nat) : Prop :=
  match llmSample L i with
  | none => True
  | some token =>
    L.isEog token=true ∨ outputSize ≤ output.length+(piece L token).length

/-- What `tokens`, taken from turn `i` on, make of a run. -/
structure Taken (L : Script) (outputSize i : Nat) (r : Run) (tokens : List Int32) (r' : Run) :
    Prop where
  sampled : ∀ j (h : j < tokens.length),llmSample L (i+j)=some tokens[j]
  text : ∀ token∈tokens,L.isEog token=false
  output : r'.output=r.output++tokens.flatMap (piece L)
  fits : r'.output.length < outputSize
  batches : r'.batches=r.batches++tokens.map fun token => batch [token]

section Generate

variable {L : Script} {outputSize : Nat}

theorem taken_nil (i : Nat) {r : Run} (h : r.output.length < outputSize) :
    Taken L outputSize i r [] r := by
  refine ⟨fun j hj => absurd hj (Nat.not_lt_zero j),by simp,?_,h,?_⟩
  · rw [List.flatMap_nil,List.append_nil]
  · rw [List.map_nil,List.append_nil]

theorem Taken.cons {i : Nat} {r r₁ r' : Run} {token : Int32} {tokens : List Int32}
    (hsample : llmSample L i=some token) (heog : L.isEog token=false)
    (houtput : r₁.output=r.output++piece L token)
    (hbatches : r₁.batches=r.batches++[batch [token]])
    (h : Taken L outputSize (i+1) r₁ tokens r') : Taken L outputSize i r (token::tokens) r' := by
  refine ⟨fun j hj => ?_,?_,?_,h.fits,?_⟩
  · cases j with
    | zero => exact hsample
    | succ j =>
      have hnext := h.sampled j (by simpa using hj)
      rw [Nat.add_right_comm] at hnext
      exact hnext
  · exact List.forall_mem_cons.mpr ⟨heog,h.text⟩
  · rw [h.output,houtput,List.flatMap_cons,List.append_assoc]
  · rw [h.batches,hbatches,List.map_cons,List.append_assoc]
    rfl

/-- The loop takes whole tokens, until the turns are over, one does not do, or the decoder fails on
the last that was taken. -/
theorem loop_taken (turns i : Nat) {r : Run} (h : r.output.length < outputSize) :
    ∃ tokens,tokens.length ≤ turns ∧
      Taken L outputSize i r tokens (generateLoop L outputSize turns i r) ∧
      (tokens.length=turns ∨
        Ends L outputSize (generateLoop L outputSize turns i r).output (i+tokens.length) ∨
        tokens≠[] ∧ L.decode (r.batches.length+tokens.length-1)≠0) := by
  induction turns generalizing i r with
  | zero => exact ⟨[],le_rfl,taken_nil i h,.inl rfl⟩
  | succ turns ih =>
    rw [generateLoop]
    cases hsample : llmSample L i with
    | none =>
      refine ⟨[],Nat.zero_le _,taken_nil i h,.inr (.inl ?_)⟩
      rw [Ends,List.length_nil,Nat.add_zero,hsample]
      trivial
    | some token =>
      dsimp only
      by_cases heog : L.isEog token=true
      · rw [if_pos heog]
        refine ⟨[],Nat.zero_le _,taken_nil i h,.inr (.inl ?_)⟩
        rw [Ends,List.length_nil,Nat.add_zero,hsample]
        exact .inl heog
      rw [if_neg heog]
      by_cases hfull : outputSize ≤ r.output.length+(cut (L.text token)).length
      · rw [if_pos hfull]
        refine ⟨[],Nat.zero_le _,taken_nil i h,.inr (.inl ?_)⟩
        rw [Ends,List.length_nil,Nat.add_zero,hsample]
        exact .inr hfull
      rw [if_neg hfull,llmEval,if_neg (List.cons_ne_nil _ _)]
      have hlen : (r.output++cut (L.text token)).length < outputSize := by
        rw [List.length_append]
        omega
      have heog' : L.isEog token=false := Bool.eq_false_iff.mpr heog
      by_cases hdecode : L.decode r.batches.length=0
      · simp only [hdecode,decide_true]
        obtain ⟨tokens,hturns,htaken,hend⟩ := ih (i+1)
          (r := ⟨r.batches++[batch [token]],r.output++cut (L.text token),r.prevTokens+1⟩) hlen
        refine ⟨token::tokens,by simpa using hturns,htaken.cons hsample heog' rfl rfl,?_⟩
        rcases hend with hend|hend|⟨hne,hend⟩
        · exact .inl (by rw [List.length_cons,hend])
        · refine .inr (.inl ?_)
          rwa [List.length_cons,← Nat.add_assoc,Nat.add_right_comm]
        · refine .inr (.inr ⟨List.cons_ne_nil _ _,?_⟩)
          have hpos := List.length_pos_iff.mpr hne
          have hsame : r.batches.length+(token::tokens).length-1=
              (r.batches++[batch [token]]).length+tokens.length-1 := by
            rw [List.length_append,List.length_cons,List.length_singleton]
            omega
          rwa [hsame]
      · simp only [hdecode,decide_false]
        refine ⟨[token],by simp,?_,.inr (.inr ⟨List.cons_ne_nil _ _,?_⟩)⟩
        · have hnil := taken_nil (L := L) (i+1)
            (r := ⟨r.batches++[batch [token]],r.output++cut (L.text token),r.prevTokens⟩) hlen
          exact hnil.cons hsample heog' rfl rfl
        · rwa [List.length_singleton,Nat.add_sub_cancel]

/-- llm_generate puts out whole pieces, those of the tokens that it samples and decodes behind the
prompt, and room is left for the NUL; llm_detokenize makes the same text of these tokens. It stops
for no other reason than that the turns are over, that the next token does not do, or that the
decoder failed on the last one. -/
theorem llmGenerate_pieces (L : Script) (prompt : List UInt8) (maxTokens : Int32)
    (outputSize : Nat) (h : (llmGenerate L prompt maxTokens outputSize).2=true) :
    let r := (llmGenerate L prompt maxTokens outputSize).1
    ∃ promptTokens tokens,L.tokenize prompt=some promptTokens ∧
      tokens.length ≤ maxTokens.toInt.toNat ∧
      (∀ j (hj : j < tokens.length),llmSample L j=some tokens[j] ∧ L.isEog tokens[j]=false) ∧
      r.batches=batch promptTokens::tokens.map (fun token => batch [token]) ∧
      r.output=tokens.flatMap (piece L) ∧ r.output.length < outputSize ∧
      (tokens≠[] → llmDetokenize L tokens outputSize=some r.output) ∧
      (tokens.length=maxTokens.toInt.toNat ∨ Ends L outputSize r.output tokens.length ∨
        tokens≠[] ∧ L.decode tokens.length≠0) := by
  intro r
  have hsize : outputSize≠0 := by
    rintro rfl
    rw [llmGenerate,if_pos rfl] at h
    cases h
  cases htokenize : L.tokenize prompt with
  | none =>
    simp only [llmGenerate,if_neg hsize,htokenize] at h
    cases h
  | some promptTokens =>
    by_cases hne : promptTokens=[]
    · simp only [llmGenerate,if_neg hsize,htokenize,llmEval,if_pos hne] at h
      cases h
    by_cases hdecode : L.decode 0=0
    · have hr : r=generateLoop L outputSize maxTokens.toInt.toNat 0
          ⟨[batch promptTokens],[],Int32.ofNat promptTokens.length⟩ := by
        show (llmGenerate L prompt maxTokens outputSize).1=_
        simp only [llmGenerate,if_neg hsize,htokenize,llmEval,if_neg hne,List.length_nil,hdecode,
          decide_true,List.nil_append]
      obtain ⟨tokens,hturns,htaken,hend⟩ := loop_taken (L := L) maxTokens.toInt.toNat 0
        (r := ⟨[batch promptTokens],[],Int32.ofNat promptTokens.length⟩)
        (Nat.pos_of_ne_zero hsize : 0 < outputSize)
      rw [← hr] at htaken hend
      have houtput : r.output=tokens.flatMap (piece L) := htaken.output
      refine ⟨promptTokens,tokens,rfl,hturns,fun j hj => ⟨?_,?_⟩,htaken.batches,houtput,
        htaken.fits,fun hsome => ?_,?_⟩
      · rw [← htaken.sampled j hj,Nat.zero_add]
      · exact htaken.text _ (List.getElem_mem hj)
      · have hfits := htaken.fits
        rw [houtput] at hfits
        rw [llmDetokenize,if_neg (not_or.mpr ⟨hsome,hsize⟩),
          detokenizeLoop_take L tokens (Nat.pos_of_ne_zero hsize),List.nil_append,
          List.take_of_length_le (by omega),houtput]
      · rwa [Nat.zero_add,List.length_singleton,Nat.add_sub_cancel_left] at hend
    · simp only [llmGenerate,if_neg hsize,htokenize,llmEval,if_neg hne,List.length_nil,hdecode,
        decide_false] at h
      cases h

theorem llmGenerate_pieces_endless :
    let r := (llmGenerate endless [104] 2 64).1
    ∃ promptTokens tokens,endless.tokenize [104]=some promptTokens ∧
      tokens.length ≤ (2 : Int32).toInt.toNat ∧
      (∀ j (hj : j < tokens.length),
        llmSample endless j=some tokens[j] ∧ endless.isEog tokens[j]=false) ∧
      r.batches=batch promptTokens::tokens.map (fun token => batch [token]) ∧
      r.output=tokens.flatMap (piece endless) ∧ r.output.length < 64 ∧
      (tokens≠[] → llmDetokenize endless tokens 64=some r.output) ∧
      (tokens.length=(2 : Int32).toInt.toNat ∨ Ends endless 64 r.output tokens.length ∨
        tokens≠[] ∧ endless.decode tokens.length≠0) :=
  llmGenerate_pieces endless [104] 2 64 (by decide)

end Generate

/-- llm_detokenize is the pieces of all tokens, cut to the room in front of the NUL. -/
theorem llmDetokenize_pieces (L : Script) (tokens : List Int32) (textSize : Nat) :
    llmDetokenize L tokens textSize=
      if tokens=[] ∨ textSize=0 then none
      else some ((tokens.flatMap (piece L)).take (textSize-1)) := by
  rw [llmDetokenize]
  split
  · rfl
  · next h =>
    rw [not_or] at h
    rw [detokenizeLoop_take L tokens (Nat.pos_of_ne_zero h.2),List.nil_append]

end Cllm.Llama
