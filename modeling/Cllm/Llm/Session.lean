import Cllm.Heap.Lending
import Cllm.Llm.Context

namespace Cllm.Llm.Session

open Libc Api Heap HeapState ByteMemory

/-- llm_params_t -/
structure Params where
  contextSize : Int32
  threads : Int32
  gpuLayers : Int32

/-- An int in memory. -/
def word (n : Int32) : Nat := n.toUInt32.toNat

def int (w : Nat) : Int32 := (UInt32.ofNat w).toInt32

/-- sizeof(llm_context_t) on i386: six words, of which `tokens` and `token_count` are the last. -/
abbrev contextBytes : Nat := 24

theorem contextBytes_eq : contextBytes=24 := rfl

def tokensOf (h : HeapState) (ctx : Nat) : Nat := loadWord h.mem (ctx+16)

def countOf (h : HeapState) (ctx : Nat) : Int32 := int (loadWord h.mem (ctx+20))

def setWord (h : HeapState) (a v : Nat) : HeapState := {h with mem := storeWord h.mem a v}

/-- c_validate_gguf_format -/
def cValidateGgufFormat (mem : Memory) (data size : Nat) : Bool :=
  data≠0 ∧ 4 ≤ size ∧ (List.range 4).map (fun i => mem (data+i))=cstr "GGUF"

/-- The heap after llm_init, and the context; 0 is NULL. -/
def llmInit (arena : Arena) (h : HeapState) (modelData modelSize : Nat) (params : Option Params) :
    Option (HeapState × Nat) :=
  if modelData=0 ∨ modelSize=0 then some (h,0)
  else
    (malloc arena h contextBytes).bind fun (h,ctx) =>
      if ctx=0 then some (h,0)
      else
        let fields := [modelData,modelSize,word ((params.map Params.contextSize).getD 2048),
          word ((params.map Params.threads).getD 1),0,0]
        let h := {h with mem := storeWords h.mem ctx fields}
        if cValidateGgufFormat h.mem modelData modelSize then some (h,ctx)
        else (free h ctx).map fun h => (h,0)

/-- if (ctx->tokens) free(ctx->tokens) -/
def freeTokens (h : HeapState) (ctx : Nat) : Option HeapState :=
  if tokensOf h ctx≠0 then free h (tokensOf h ctx) else some h

def llmFree (h : HeapState) (ctx : Nat) : Option HeapState :=
  if ctx=0 then some h else (freeTokens h ctx).bind fun h => free h ctx

/-- llm_eval of a context; `false` is -1. -/
def llmEval (arena : Arena) (h : HeapState) (ctx : Nat) (tokens : List Int32)
    (tokenCount : Int32) : Option (HeapState × Bool) :=
  if tokenCount≤0 then some (h,false)
  else
    (freeTokens h ctx).bind fun h =>
      (malloc arena h (tokenBytes tokenCount)).map fun (h,p) =>
        let h := setWord h (ctx+16) p
        if p=0 then (h,false)
        else
          let ints := (tokens.take (tokenBytes tokenCount/4)).map word
          let h := {h with mem := storeWords h.mem p ints}
          (setWord h (ctx+20) (word tokenCount),true)

def llmSample (h : HeapState) (ctx : Nat) : Int32 :=
  if 0 < countOf h ctx then
    int (loadWord h.mem (wrap (tokensOf h ctx+4*word (countOf h ctx-1))))+1
  else 65

/-- The loop of llm_generate; `none` in the result is -1. -/
def generateLoop (arena : Arena) (ctx outputSize : Nat) : (turns : Nat) → HeapState →
    (tokens : List Int32) → (output : List UInt8) → Option (HeapState × Option (List UInt8))
  | 0,h,_,output => some (h,some output)
  | turns+1,h,tokens,output =>
    if output.length+1 < outputSize then
      (llmEval arena h ctx tokens (Int32.ofNat tokens.length)).bind fun (h,ok) =>
        if ok then
          let token := llmSample h ctx
          generateLoop arena ctx outputSize turns h (pushToken tokens token)
            (output++[charOf token])
        else some (h,none)
    else some (h,some output)

/-- The arguments of an llm_generate, with an `output` that is not on the heap. -/
structure Request where
  prompt : List UInt8
  maxTokens : Int32
  outputSize : Nat

def llmGenerate (arena : Arena) (h : HeapState) (ctx : Nat) (r : Request) :
    Option (HeapState × Option (List UInt8)) :=
  if ctx=0 ∨ r.maxTokens≤0 ∨ r.outputSize=0 then some (h,none)
  else generateLoop arena ctx r.outputSize r.maxTokens.toInt.toNat h (llmTokenize r.prompt 512) []

/-- An llm_generate for every request. -/
def generateAll (arena : Arena) (ctx : Nat) :
    HeapState → List Request → Option (HeapState × List (Option (List UInt8)))
  | h,[] => some (h,[])
  | h,r::rs =>
    (llmGenerate arena h ctx r).bind fun (h,answer) =>
      (generateAll arena ctx h rs).map fun (h,answers) => (h,answer::answers)

/-- llm_init, the requests and llm_free. -/
def session (arena : Arena) (h : HeapState) (modelData modelSize : Nat) (params : Option Params)
    (rs : List Request) : Option (HeapState × List (Option (List UInt8))) :=
  (llmInit arena h modelData modelSize params).bind fun (h,ctx) =>
    (generateAll arena ctx h rs).bind fun (h,answers) =>
      (llmFree h ctx).map fun h => (h,answers)

/-- What comes of a request to a context that has just been made: the bytes behind the last one of
the prompt, if there is a block for the longest window. -/
def answer (arena : Arena) (h : HeapState) (ctx : Nat) (r : Request) : Option (List UInt8) :=
  let turns := min r.maxTokens.toInt.toNat (r.outputSize-1)
  let prompt := (cut r.prompt).take 512
  if ctx=0 ∨ r.maxTokens≤0 ∨ r.outputSize=0 then none
  else if turns=0 then some []
  else
    match prompt.getLast? with
    | none => none
    | some last =>
      if fits arena h (4*min 512 (prompt.length+turns-1)) then
        some (List.iterate (·+1) (last+1) turns)
      else none

section Words

theorem word_lt (n : Int32) : word n < 2^32 := n.toUInt32.toNat_lt

@[simp] theorem int_word (n : Int32) : int (word n)=n := by
  rw [int,word,UInt32.ofNat_toNat]
  rfl

theorem word_pred {n : Int32} (h : 0 < n) : word (n-1)=n.toInt.toNat-1 := by
  have hpred := toInt_pred h
  by_cases h0 : 0 < n-1
  · rw [word,toUInt32_toNat h0]
    omega
  · have hle : (n-1).toInt ≤ 0 := Int32.le_iff_toInt_le.mp (Int32.not_lt.mp h0)
    have hone : n.toInt=1 := by omega
    obtain rfl : n=1 := Int32.toInt_inj.mp hone
    rfl

theorem charOf_succ (t : Int32) : charOf (t+1)=charOf t+1 := by
  rw [charOf,charOf,Int32.toUInt32_add,UInt32.toUInt8_add]
  rfl

theorem charOf_tokenOf (b : UInt8) : charOf (tokenOf b)=b := by
  rw [charOf,tokenOf]
  show b.toUInt32.toUInt8=b
  rw [UInt8.toUInt8_toUInt32]

theorem tokenBytes_window {tokens : List Int32} (h : Window tokens) :
    tokenBytes (Int32.ofNat tokens.length)=4*tokens.length := by
  have hlen := h.2
  rw [tokenBytes_eq h.pos,h.count]
  show tokens.length*4%2^32=_
  omega

end Words

/-- The block of a context, among those in use. -/
structure ContextBlock (P : Pool Nat) (c : Block) : Prop where
  live : c∈P.live
  room : pointer c+contextBytes ≤ c.stop

/-- What the calls on a context may change: the context and free memory. -/
def reach (P : Pool Nat) (c : Block) : Set Nat := c.range∪Extent.covered P.free

/-- A context between two calls: its buffer is NULL, or all that is in use beyond P. -/
inductive Ready (arena : Arena) (P : Pool Nat) (c : Block) (h : HeapState) : Prop
  | empty (hR : Represents arena h P) (htokens : tokensOf h (pointer c)=0)
  | buffered {a : Block} {Q : Pool Nat} (htakes : P.Takes a Q) (hR : Represents arena h Q)
      (htokens : tokensOf h (pointer c)=pointer a)

section Calls

variable {arena : Arena} {P Q : Pool Nat} {c a : Block} {h h' : HeapState} {tokens : List Int32}
  {n : Nat}

theorem ContextBlock.takes (hc : ContextBlock P c) (htakes : P.Takes a Q) : ContextBlock Q c := by
  refine ⟨?_,hc.room⟩
  rw [htakes.mem]
  exact .tail _ hc.live

theorem ContextBlock.pointer_pos (hc : ContextBlock P c) (hR : Represents arena h P) :
    pointer c≠0 := (pointer_block (hR.inArena c hc.live)).1

theorem within_reach_free (hw : Within h h' (Extent.covered P.free)) :
    Within h h' (reach P c) := hw.mono Set.subset_union_right

theorem within_reach_payload (hw : Within h h' (payload c)) : Within h h' (reach P c) :=
  hw.mono ((payload_subset c).trans Set.subset_union_left)

theorem freeTokens_spec (hP : P.Sound) (hready : Ready arena P c h) :
    ∃ h',freeTokens h (pointer c)=some h' ∧ Represents arena h' P ∧
      Within h h' (Extent.covered P.free) := by
  rw [freeTokens]
  cases hready with
  | empty hR htokens =>
    rw [if_neg (not_not.mpr htokens)]
    exact ⟨h,rfl,hR,within_refl⟩
  | @buffered a Q htakes hR htokens =>
    have ha : a∈Q.live := by
      rw [htakes.mem]
      exact .head _
    have hp : pointer a≠0 := (pointer_block (hR.inArena a ha)).1
    rw [htokens,if_pos hp]
    exact free_returns hP htakes hR

/-- The buffer is freed, then the context. -/
theorem llmFree_spec {P₀ : Pool Nat} (htakes : P₀.Takes c P) (hP₀ : P₀.Sound)
    (hc : ContextBlock P c) (hready : Ready arena P c h) :
    ∃ h',llmFree h (pointer c)=some h' ∧ Represents arena h' P₀ ∧
      Within h h' (Extent.covered P₀.free) := by
  obtain ⟨h1,hdrop,hR1,hw1⟩ := freeTokens_spec (htakes.sound hP₀) hready
  obtain ⟨h2,hfree,hR2,hw2⟩ := free_returns hP₀ htakes hR1
  refine ⟨h2,?_,hR2,(within_taken htakes hw1).trans hw2⟩
  rw [llmFree,if_neg (hc.pointer_pos hR1),hdrop,Option.bind_some,hfree]

/-- A field of the context is set. -/
theorem setField_spec (hc : ContextBlock Q c) (hR : Represents arena h Q) {k v : Nat}
    (hk : k+4 ≤ contextBytes) : Represents arena (setWord h (pointer c+k) v) Q ∧
      Within h (setWord h (pointer c+k) v) (payload c) := by
  have hroom := hc.room
  have hw : Within h (setWord h (pointer c+k) v) (payload c) :=
    within_storeWord (Nat.le_add_right _ _) (by omega)
  exact ⟨hR.write hc.live hw rfl,hw⟩

/-- llm_eval without memory leaves a context without a buffer. -/
theorem llmEval_full (hc : ContextBlock P c) (hP : P.Sound) (hready : Ready arena P c h)
    (hwin : Window tokens) (hfull : Full P (4*tokens.length)) :
    ∃ h',llmEval arena h (pointer c) tokens (Int32.ofNat tokens.length)=some (h',false) ∧
      Ready arena P c h' ∧ Within h h' (reach P c) := by
  obtain ⟨h1,hdrop,hR1,hw1⟩ := freeTokens_spec hP hready
  have hpos : 4*tokens.length≠0 := by
    have hlen := List.length_pos_of_ne_nil hwin.1
    omega
  have hmalloc : malloc arena h1 (4*tokens.length)=some (h1,0) := by
    rcases malloc_lends hR1 hpos with ⟨hm,-⟩|⟨h',e,P',-,htakes,-,-,-,-,hroom⟩
    · exact hm
    · exact absurd hfull (not_full_of_takes htakes hroom)
  obtain ⟨hR2,hw2⟩ := setField_spec (v := 0) hc hR1 (by decide : 16+4 ≤ contextBytes)
  refine ⟨setWord h1 (pointer c+16) 0,?_,.empty hR2 ?_,?_⟩
  · rw [llmEval,if_neg (Int32.not_le.mpr hwin.pos),hdrop,Option.bind_some,
      tokenBytes_window hwin,hmalloc]
    rfl
  · exact loadWord_storeWord (by decide)
  · exact (within_reach_free hw1).trans (within_reach_payload hw2)

/-- The heap once llm_eval has stored its window: the pointer, the tokens and their number. -/
def storeWindow (h : HeapState) (c a : Block) (tokens : List Int32) : HeapState :=
  let h := setWord h (pointer c+16) (pointer a)
  let h := {h with mem := storeWords h.mem (pointer a) (tokens.map word)}
  setWord h (pointer c+20) (word (Int32.ofNat tokens.length))

/-- The stores are in blocks in use. -/
theorem storeWindow_spec (htakes : P.Takes a Q) (hc : ContextBlock P c) (hR : Represents arena h Q)
    (hroom : pointer a+4*tokens.length ≤ a.stop) :
    Represents arena (storeWindow h c a tokens) Q ∧
      Within h (storeWindow h c a tokens) (reach P c) := by
  have hcQ := hc.takes htakes
  have ha : a∈Q.live := by
    rw [htakes.mem]
    exact .head _
  obtain ⟨hR1,hw1⟩ := setField_spec (v := pointer a) hcQ hR (by decide : 16+4 ≤ contextBytes)
  generalize hh1 : setWord h (pointer c+16) (pointer a)=h1 at hR1 hw1
  have hw2 : Within h1 {h1 with mem := storeWords h1.mem (pointer a) (tokens.map word)}
      (payload a) := within_storeWords (by rw [List.length_map]; exact hroom)
  have hR2 := hR1.write ha hw2 rfl
  obtain ⟨hR3,hw3⟩ := setField_spec (v := word (Int32.ofNat tokens.length)) hcQ hR2
    (by decide : 20+4 ≤ contextBytes)
  rw [storeWindow,hh1]
  exact ⟨hR3,(within_reach_payload hw1).trans
    ((within_reach_free (within_payload htakes hw2)).trans (within_reach_payload hw3))⟩

/-- The tokens are apart from the context. -/
theorem tokensOf_storeWindow (hapart : Extent.Apart a c) (hc : pointer c+contextBytes ≤ c.stop)
    (hroom : pointer a+4*tokens.length ≤ a.stop) (hpa : pointer a < 2^32) :
    tokensOf (storeWindow h c a tokens) (pointer c)=pointer a := by
  have hcount (m : Memory) (v : Nat) :
      Agree m (storeWord m (pointer c+20) v) (pointer c+16) (pointer c+16+4) :=
    agree_storeWord (.inl le_rfl)
  have htokens (m : Memory) : Agree m (storeWords m (pointer a) (tokens.map word))
      (pointer c+16) (pointer c+16+4) := by
    intro x hx hx'
    have hheader : pointer c=c.start+headerSize := rfl
    have hstart : a.start ≤ pointer a := Nat.le_add_right _ _
    rw [contextBytes_eq] at hc
    refine storeWords_of_ne ?_
    rw [List.length_map]
    rcases hapart with hlow|hhigh
    · omega
    · omega
  simp only [storeWindow,tokensOf,setWord]
  rw [(hcount _ _).loadWord,(htokens _).loadWord]
  exact loadWord_storeWord hpa

theorem countOf_storeWindow :
    countOf (storeWindow h c a tokens) (pointer c)=Int32.ofNat tokens.length := by
  rw [countOf,storeWindow,setWord,loadWord_storeWord (word_lt _),int_word]

/-- llm_sample goes by the last token of the window. -/
theorem llmSample_storeWindow (hapart : Extent.Apart a c) (hc : pointer c+contextBytes ≤ c.stop)
    (hroom : pointer a+4*tokens.length ≤ a.stop) (hstop : a.stop < 2^32) (hwin : Window tokens) :
    llmSample (storeWindow h c a tokens) (pointer c)=tokens.getLast hwin.1+1 := by
  have hlen := List.length_pos_of_ne_nil hwin.1
  have hlast : word (Int32.ofNat tokens.length-1)=tokens.length-1 := by
    have hcount : (Int32.ofNat tokens.length).toInt.toNat=tokens.length := by
      rw [hwin.count]
      rfl
    rw [word_pred hwin.pos,hcount]
  have haddress : wrap (pointer a+4*(tokens.length-1))=pointer a+4*(tokens.length-1) :=
    Nat.mod_eq_of_lt (by omega)
  have hload (m : Memory) (v : Nat) :
      loadWord (storeWord m (pointer c+20) v) (pointer a+4*(tokens.length-1))=
        loadWord m (pointer a+4*(tokens.length-1)) := by
    have hheader : pointer c=c.start+headerSize := rfl
    have hstart : a.start ≤ pointer a := Nat.le_add_right _ _
    rw [contextBytes_eq] at hc
    refine loadWord_storeWord_ne ?_
    rcases hapart with hlow|hhigh
    · omega
    · omega
  have hstored (m : Memory) := loadWord_storeWords (m := m) (a := pointer a)
    (by rw [List.length_map]; omega : tokens.length-1 < (tokens.map word).length)
    (by rw [List.getElem_map]; exact word_lt _)
  rw [llmSample,countOf_storeWindow,if_pos hwin.pos,
    tokensOf_storeWindow hapart hc hroom (by omega),hlast,haddress]
  simp only [storeWindow,setWord]
  rw [hload,hstored,List.getElem_map,int_word,List.getLast_eq_getElem]

/-- With memory it leaves the window in a block of its own, and the next sample goes by the last
token in it. -/
theorem llmEval_fits (hc : ContextBlock P c) (hP : P.Sound) (hready : Ready arena P c h)
    (hwin : Window tokens) (hfits : ¬Full P (4*tokens.length)) :
    ∃ h',llmEval arena h (pointer c) tokens (Int32.ofNat tokens.length)=some (h',true) ∧
      Ready arena P c h' ∧ Within h h' (reach P c) ∧
      llmSample h' (pointer c)=tokens.getLast hwin.1+1 := by
  obtain ⟨h1,hdrop,hR1,hw1⟩ := freeTokens_spec hP hready
  have hlen := List.length_pos_of_ne_nil hwin.1
  have hpos : 4*tokens.length≠0 := by omega
  rcases malloc_lends hR1 hpos with ⟨-,hfull⟩|⟨h2,a,Q,hmalloc,htakes,ha,hp,hR2,hw2,hroom⟩
  · exact absurd hfull hfits
  have hsmall : 4*tokens.length ≤ 2^32-8 := by
    have hmax := hwin.2
    omega
  have hwindow : pointer a+4*tokens.length ≤ a.stop :=
    Nat.le_trans (Nat.add_le_add_left (le_alignSize hsmall) _) hroom
  have hapart : Extent.Apart a c := taken_apart hR2 htakes c hc.live
  have hstop := (hR2.inArena a ha).stop_lt
  obtain ⟨hR3,hw3⟩ := storeWindow_spec htakes hc hR2 hwindow
  refine ⟨storeWindow h2 c a tokens,?_,
    .buffered htakes hR3 (tokensOf_storeWindow hapart hc.room hwindow (by omega)),
    (within_reach_free hw1).trans ((within_reach_free hw2).trans hw3),
    llmSample_storeWindow hapart hc.room hwindow hstop hwin⟩
  have hdiv : 4*tokens.length/4=tokens.length := Nat.mul_div_cancel_left _ (by decide)
  rw [llmEval,if_neg (Int32.not_le.mpr hwin.pos),hdrop,Option.bind_some,
    tokenBytes_window hwin,hmalloc,Option.map_some]
  dsimp only
  rw [if_neg hp,hdiv,List.take_length]
  rfl

end Calls

/-- There is a block for the last window of so many turns. -/
def Room (P : Pool Nat) (length turns : Nat) : Prop :=
  turns=0 ∨ ¬Full P (4*min 512 (length+turns-1))

section Runs

variable {arena : Arena} {P : Pool Nat} {c : Block} {h : HeapState} {tokens : List Int32}
  {n k : Nat}

theorem length_pushToken (hwin : Window tokens) (token : Int32) :
    (pushToken tokens token).length=min 512 (tokens.length+1) := by
  have hpos := List.length_pos_of_ne_nil hwin.1
  have hmax := hwin.2
  unfold pushToken
  split
  · rw [List.length_append,List.length_singleton]
    omega
  · rw [List.length_append,List.length_singleton,List.length_tail]
    omega

theorem getLast_pushToken (tokens : List Int32) (token : Int32) (h : pushToken tokens token≠[]) :
    (pushToken tokens token).getLast h=token := by
  unfold pushToken
  split
  · exact List.getLast_append_singleton _
  · exact List.getLast_append_singleton _

theorem room_zero (P : Pool Nat) (n : Nat) : Room P n 0 := .inl rfl

/-- The first window is no longer than the last. -/
theorem Room.first (hroom : Room P n (k+1)) (hn : n ≤ 512) : ¬Full P (4*n) := by
  rcases hroom with hroom|hroom
  · exact absurd hroom (Nat.succ_ne_zero k)
  · exact fun hfull => hroom (hfull.mono (by omega) (by omega))

/-- After a turn the windows that are left are the same. -/
theorem room_succ (hn : 0 < n) (hmax : n ≤ 512) (hfits : ¬Full P (4*n)) :
    Room P n (k+1) ↔ Room P (min 512 (n+1)) k := by
  cases k with
  | zero =>
    have hsame : min 512 (n+(0+1)-1)=n := by omega
    refine ⟨fun _ => room_zero ..,fun _ => .inr ?_⟩
    rwa [hsame]
  | succ k =>
    have hsame : min 512 (min 512 (n+1)+(k+1)-1)=min 512 (n+(k+1+1)-1) := by omega
    rw [Room,Room,hsame]
    simp only [Nat.succ_ne_zero,false_or]

/-- The loop puts out a byte a turn, each the successor of the one before, or fails for want of
memory. -/
theorem loop_spec (hc : ContextBlock P c) (hP : P.Sound) (outputSize : Nat) {turns : Nat}
    {output : List UInt8} (hready : Ready arena P c h) (hwin : Window tokens)
    (hk : k=min turns (outputSize-1-output.length)) :
    ∃ h' result,generateLoop arena (pointer c) outputSize turns h tokens output=
        some (h',result) ∧ Ready arena P c h' ∧ Within h h' (reach P c) ∧
      (Room P tokens.length k → result=
        some (output++List.iterate (·+1) (charOf (tokens.getLast hwin.1)+1) k)) ∧
      (¬Room P tokens.length k → result=none) := by
  induction turns generalizing h tokens output k with
  | zero =>
    obtain rfl : k=0 := by omega
    refine ⟨h,some output,rfl,hready,within_refl,fun _ => ?_,fun hno => absurd (room_zero ..) hno⟩
    rw [List.iterate,List.append_nil]
  | succ turns ih =>
    rw [generateLoop]
    by_cases hroom : output.length+1 < outputSize
    · rw [if_pos hroom]
      obtain ⟨k,rfl⟩ : ∃ j,k=j+1 := ⟨k-1,by omega⟩
      by_cases hfull : Full P (4*tokens.length)
      · obtain ⟨h1,heval,hready1,hw1⟩ := llmEval_full hc hP hready hwin hfull
        refine ⟨h1,none,?_,hready1,hw1,fun hyes => absurd hfull (hyes.first hwin.2),fun _ => rfl⟩
        rw [heval]
        rfl
      · obtain ⟨h1,heval,hready1,hw1,hsample⟩ := llmEval_fits hc hP hready hwin hfull
        let token := tokens.getLast hwin.1+1
        have hlength := length_pushToken hwin token
        have hrest : k=min turns (outputSize-1-(output++[charOf token]).length) := by
          rw [List.length_append,List.length_singleton]
          omega
        obtain ⟨h2,result,hloop,hready2,hw2,hyes,hno⟩ := ih hready1 (hwin.push token) hrest
        have hiff : Room P tokens.length (k+1) ↔ Room P (pushToken tokens token).length k := by
          rw [hlength]
          exact room_succ (List.length_pos_of_ne_nil hwin.1) hwin.2 hfull
        refine ⟨h2,result,?_,hready2,hw1.trans hw2,fun hr => ?_,fun hr => hno (mt hiff.mpr hr)⟩
        · rw [heval,Option.bind_some]
          show generateLoop arena (pointer c) outputSize turns h1
            (pushToken tokens (llmSample h1 (pointer c)))
            (output++[charOf (llmSample h1 (pointer c))])=_
          rw [hsample]
          exact hloop
        · rw [hyes (hiff.mp hr),getLast_pushToken,charOf_succ,List.iterate,List.append_assoc]
          rfl
    · obtain rfl : k=0 := by omega
      rw [if_neg hroom]
      refine ⟨h,some output,rfl,hready,within_refl,fun _ => ?_,
        fun hno => absurd (room_zero ..) hno⟩
      rw [List.iterate,List.append_nil]

/-- An empty prompt fails in the first turn. -/
theorem loop_nil (arena : Arena) (ctx outputSize : Nat) (h : HeapState) (turns : Nat) :
    generateLoop arena ctx outputSize turns h [] []=
      some (h,if min turns (outputSize-1)=0 then some [] else none) := by
  cases turns with
  | zero => rw [generateLoop,Nat.zero_min,if_pos rfl]
  | succ turns =>
    rw [generateLoop]
    by_cases hroom : 1 < outputSize
    · have hpos : min (turns+1) (outputSize-1)≠0 := by omega
      have heval : llmEval arena h ctx [] (Int32.ofNat ([] : List Int32).length)=
          some (h,false) := if_pos (by decide)
      rw [if_pos (by simpa using hroom),heval,if_neg hpos]
      rfl
    · have hzero : min (turns+1) (outputSize-1)=0 := by omega
      rw [if_neg (by simpa using hroom),if_pos hzero]

end Runs

section Session

variable {arena : Arena} {P P₀ : Pool Nat} {c : Block} {h h₁ : HeapState}

/-- A request to a context in any state is answered as by one that has just been made. -/
theorem llmGenerate_spec (hc : ContextBlock P c) (hP : P.Sound) (h₁R : Represents arena h₁ P)
    (hready : Ready arena P c h) (r : Request) :
    ∃ h',llmGenerate arena h (pointer c) r=some (h',answer arena h₁ (pointer c) r) ∧
      Ready arena P c h' ∧ Within h h' (reach P c) := by
  have hctx := hc.pointer_pos h₁R
  rw [llmGenerate,answer]
  by_cases hno : r.maxTokens ≤ 0 ∨ r.outputSize=0
  · rw [if_pos (.inr hno),if_pos (.inr hno)]
    exact ⟨h,rfl,hready,within_refl⟩
  have hgo : ¬(pointer c=0 ∨ r.maxTokens ≤ 0 ∨ r.outputSize=0) := not_or.mpr ⟨hctx,hno⟩
  rw [if_neg hgo,if_neg hgo]
  have htokens : llmTokenize r.prompt 512=((cut r.prompt).take 512).map tokenOf := rfl
  have hmax : ((cut r.prompt).take 512).length ≤ 512 := List.length_take_le _ _
  rw [htokens]
  generalize (cut r.prompt).take 512=prompt at hmax
  rcases List.eq_nil_or_concat' prompt with rfl|⟨front,last,rfl⟩
  · rw [List.map_nil,loop_nil]
    exact ⟨h,rfl,hready,within_refl⟩
  have hwin : Window ((front++[last]).map tokenOf) := by
    refine ⟨by simp,?_⟩
    rw [List.length_map]
    exact hmax
  have hlast : charOf (((front++[last]).map tokenOf).getLast hwin.1)=last := by
    rw [List.getLast_map,List.getLast_append_singleton,charOf_tokenOf]
  obtain ⟨h',result,hloop,hready',hw,hyes,hnone⟩ :=
    loop_spec hc hP r.outputSize hready hwin (rfl : _=min r.maxTokens.toInt.toNat
      (r.outputSize-1-([] : List UInt8).length))
  simp only [hlast,List.nil_append,List.length_nil,Nat.sub_zero] at hyes hnone
  have hlen : ((front++[last]).map tokenOf).length=(front++[last]).length := List.length_map _
  rw [hlen] at hyes hnone
  refine ⟨h',?_,hready',hw⟩
  rw [hloop,List.getLast?_concat]
  dsimp only
  generalize min r.maxTokens.toInt.toNat (r.outputSize-1)=k at hyes hnone
  by_cases hk : k=0
  · subst hk
    rw [hyes (room_zero ..),if_pos rfl,List.iterate]
  have hpos : 4*min 512 ((front++[last]).length+k-1)≠0 := by
    rw [List.length_append,List.length_singleton]
    omega
  have hfits := fits_iff h₁R hpos
  rw [if_neg hk]
  by_cases hfull : Full P (4*min 512 ((front++[last]).length+k-1))
  · rw [hnone fun hroom => hroom.elim hk fun hno => hno hfull,if_neg (by rw [hfits]; tauto)]
  · rw [hyes (.inr hfull),if_pos (hfits.mpr hfull)]

theorem generateAll_spec (hc : ContextBlock P c) (hP : P.Sound) (h₁R : Represents arena h₁ P)
    (hready : Ready arena P c h) (rs : List Request) :
    ∃ h',generateAll arena (pointer c) h rs=some (h',rs.map (answer arena h₁ (pointer c))) ∧
      Ready arena P c h' ∧ Within h h' (reach P c) := by
  induction rs generalizing h with
  | nil => exact ⟨h,rfl,hready,within_refl⟩
  | cons r rs ih =>
    obtain ⟨h2,hgen,hready2,hw2⟩ := llmGenerate_spec hc hP h₁R hready r
    obtain ⟨h3,hall,hready3,hw3⟩ := ih hready2
    refine ⟨h3,?_,hready3,hw2.trans hw3⟩
    rw [generateAll,hgen,Option.bind_some]
    dsimp only
    rw [hall]
    rfl

/-- Without a context every request fails. -/
theorem generateAll_null (arena : Arena) (h h₁ : HeapState) (rs : List Request) :
    generateAll arena 0 h rs=some (h,rs.map (answer arena h₁ 0)) := by
  induction rs with
  | nil => rfl
  | cons r rs ih =>
    have hgen : llmGenerate arena h 0 r=some (h,none) := if_pos (.inl rfl)
    have hanswer : answer arena h₁ 0 r=none := by
      rw [answer]
      exact if_pos (.inl rfl)
    rw [generateAll,hgen,Option.bind_some]
    dsimp only
    rw [ih,List.map_cons,hanswer]
    rfl

/-- llm_init makes a context without a buffer, or leaves the heap as it was. -/
theorem llmInit_spec (hR : Represents arena h P₀) (modelData modelSize : Nat)
    (params : Option Params) :
    ∃ h' ctx,llmInit arena h modelData modelSize params=some (h',ctx) ∧
      Within h h' (Extent.covered P₀.free) ∧
      (ctx=0 ∧ Represents arena h' P₀ ∨ ∃ c P,P₀.Takes c P ∧ ctx=pointer c ∧
        ContextBlock P c ∧ Represents arena h' P ∧ Ready arena P c h') := by
  rw [llmInit]
  by_cases hmodel : modelData=0 ∨ modelSize=0
  · rw [if_pos hmodel]
    exact ⟨h,0,rfl,within_refl,.inl ⟨rfl,hR⟩⟩
  rw [if_neg hmodel]
  rcases malloc_lends hR (by decide : contextBytes≠0) with
    ⟨hm,-⟩|⟨h1,c,P,hm,htakes,hlive,hp,hR1,hw1,hroom⟩
  · rw [hm]
    exact ⟨h,0,rfl,within_refl,.inl ⟨rfl,hR⟩⟩
  have hc : ContextBlock P c := ⟨hlive,hroom⟩
  rw [hm,Option.bind_some]
  dsimp only
  rw [if_neg hp]
  generalize hfields : [modelData,modelSize,word ((params.map Params.contextSize).getD 2048),
    word ((params.map Params.threads).getD 1),0,0]=fields
  have hlength : fields.length=6 := by rw [← hfields]; rfl
  have hw2 : Within h1 {h1 with mem := storeWords h1.mem (pointer c) fields} (payload c) :=
    within_storeWords (by rw [hlength]; exact hc.room)
  have hR2 := hR1.write hlive hw2 rfl
  have htokens : tokensOf {h1 with mem := storeWords h1.mem (pointer c) fields} (pointer c)=0 := by
    have hfour : 4 < fields.length := by omega
    have hzero : fields[4]=0 := by simp [← hfields]
    have hload := loadWord_storeWords (m := h1.mem) (a := pointer c) hfour
      (by rw [hzero]; decide)
    rw [hzero] at hload
    exact hload
  have hw := hw1.trans (within_payload htakes hw2)
  show ∃ h' ctx,(if cValidateGgufFormat (storeWords h1.mem (pointer c) fields) modelData modelSize
    then some ({h1 with mem := storeWords h1.mem (pointer c) fields},pointer c)
    else _)=some (h',ctx) ∧ _
  split
  · exact ⟨_,_,rfl,hw,.inr ⟨c,P,htakes,rfl,hc,hR2,.empty hR2 htokens⟩⟩
  · obtain ⟨h3,hfree,hR3,hw3⟩ := free_returns hR.sound htakes hR2
    refine ⟨h3,0,?_,hw.trans hw3,.inl ⟨rfl,hR3⟩⟩
    show (free _ (pointer c)).map _=_
    rw [hfree]
    rfl

/-- A session leaves the blocks that there were. -/
theorem session_spec (hR : Represents arena h P₀) (modelData modelSize : Nat)
    (params : Option Params) (rs : List Request) :
    ∃ h₁ ctx h',llmInit arena h modelData modelSize params=some (h₁,ctx) ∧
      session arena h modelData modelSize params rs=
        some (h',rs.map (answer arena h₁ ctx)) ∧
      Represents arena h' P₀ ∧ Within h h' (Extent.covered P₀.free) := by
  obtain ⟨h₁,ctx,hinit,hw₁,⟨rfl,hR₁⟩|⟨c,P,htakes,rfl,hc,hR₁,hready⟩⟩ :=
    llmInit_spec hR modelData modelSize params
  · refine ⟨h₁,0,h₁,hinit,?_,hR₁,hw₁⟩
    rw [session,hinit,Option.bind_some]
    dsimp only
    rw [generateAll_null arena h₁ h₁ rs]
    rfl
  · obtain ⟨h2,hall,hready2,hw2⟩ := generateAll_spec hc hR₁.sound hR₁ hready rs
    obtain ⟨h3,hfree,hR3,hw3⟩ := llmFree_spec htakes hR.sound hc hready2
    have hreach : reach P c=Extent.covered P₀.free := htakes.covered_free
    rw [hreach] at hw2
    refine ⟨h₁,pointer c,h3,hinit,?_,hR3,hw₁.trans (hw2.trans hw3)⟩
    rw [session,hinit,Option.bind_some]
    dsimp only
    rw [hall,Option.bind_some]
    dsimp only
    rw [hfree]
    rfl

/-- Whatever other clients have done to the heap, every llm_generate of a session is answered as by
a context that has just been made: with the bytes that follow the last one of the prompt, or with
-1 if the heap has no block for the longest window. Nothing else that was generated counts. -/
theorem session_answers (arena : Arena) (mem : Memory) (calls : List Heap.Call)
    (h : Machine.Along (Heap.step arena) Regular (initial arena mem) calls)
    (modelData modelSize : Nat) (params : Option Params) (rs : List Request) :
    ∃ h₁ ctx h',llmInit arena (run arena mem calls).heap modelData modelSize params=
        some (h₁,ctx) ∧
      session arena (run arena mem calls).heap modelData modelSize params rs=
        some (h',rs.map (answer arena h₁ ctx)) := by
  obtain ⟨P,hs⟩ := run_stands (h.mono _ fun _ _ => Regular.sizable)
  obtain ⟨h₁,ctx,h',hinit,hsession,-,-⟩ := session_spec hs.heap modelData modelSize params rs
  exact ⟨h₁,ctx,h',hinit,hsession⟩

/-- A memory with a model at 16. -/
def modelMemory : Memory := storeBytes zeros (byteStores 16 (cstr "GGUF"))

theorem session_answers_two :
    ∃ h',session lowArena (run lowArena modelMemory [.malloc 100]).heap 16 24 none
      [⟨cstr "A",3,8⟩,⟨[],3,8⟩]=some (h',[some (cstr "BCD"),none]) := by
  obtain ⟨h₁,ctx,h',hinit,hsession⟩ := session_answers lowArena modelMemory [.malloc 100]
    (by decide) 16 24 none [⟨cstr "A",3,8⟩,⟨[],3,8⟩]
  have hanswers : (llmInit lowArena (run lowArena modelMemory [.malloc 100]).heap 16 24 none).map
      (fun r => [⟨cstr "A",3,8⟩,⟨[],3,8⟩].map (answer lowArena r.1 r.2))=
        some [some (cstr "BCD"),none] := by decide +kernel
  rw [hinit,Option.map_some] at hanswers
  rw [Option.some.inj hanswers] at hsession
  exact ⟨h',hsession⟩

/-- When it is over, the free blocks are those before it, no byte in a block of another client has
changed, and the allocator answers the others as if there had been no session. -/
theorem session_unnoticed (arena : Arena) (mem : Memory) (calls : List Heap.Call)
    (h : Machine.Along (Heap.step arena) Regular (initial arena mem) calls)
    (modelData modelSize : Nat) (params : Option Params) (rs : List Request) :
    let s := run arena mem calls
    ∃ h' answers,session arena s.heap modelData modelSize params rs=some (h',answers) ∧
      State.freeBlocks ⟨h',s.live⟩=s.freeBlocks ∧ (∀ p∈s.live,Preserved s ⟨h',s.live⟩ p) ∧
      ∀ cs,Machine.Along (Heap.step arena) Regular s cs →
        Machine.outputs (Heap.step arena) ⟨h',s.live⟩ cs=Machine.outputs (Heap.step arena) s cs := by
  intro s
  obtain ⟨P,hs⟩ := run_stands (h.mono _ fun _ _ => Regular.sizable)
  obtain ⟨h₁,ctx,h',-,hsession,hR',hw⟩ := session_spec hs.heap modelData modelSize params rs
  exact ⟨h',_,hsession,unnoticed hs hR' hw⟩

theorem session_unnoticed_two :
    let s := run lowArena modelMemory [.malloc 100]
    ∃ h' answers,session lowArena s.heap 16 24 none [⟨cstr "A",3,8⟩,⟨[],3,8⟩]=
        some (h',answers) ∧
      State.freeBlocks ⟨h',s.live⟩=s.freeBlocks ∧ (∀ p∈s.live,Preserved s ⟨h',s.live⟩ p) ∧
      ∀ cs,Machine.Along (Heap.step lowArena) Regular s cs →
        Machine.outputs (Heap.step lowArena) ⟨h',s.live⟩ cs=
          Machine.outputs (Heap.step lowArena) s cs :=
  session_unnoticed lowArena modelMemory [.malloc 100] (by decide) 16 24 none
    [⟨cstr "A",3,8⟩,⟨[],3,8⟩]

end Session

end Cllm.Llm.Session
