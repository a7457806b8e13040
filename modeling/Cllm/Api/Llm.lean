import Cllm.Api.Requests

namespace Cllm.Api

open Libc

/-- (int)(unsigned char)c -/
def tokenOf (c : UInt8) : Int32 := c.toUInt32.toInt32

/-- (char)(unsigned char)token -/
def charOf (token : Int32) : UInt8 := token.toUInt32.toUInt8

/-- llm_tokenize, for a positive `max`. -/
def llmTokenize (text : List UInt8) (max : Nat) : List Int32 := ((cut text).take max).map tokenOf

/-- The bytes that llm_detokenize puts in front of its NUL, for one token or more. -/
def llmDetokenize (tokens : List Int32) (textSize : Nat) : List UInt8 :=
  (tokens.take (textSize-1)).map charOf

/-- llm_eval: the tokens that the context then holds; `none` is -1. -/
def llmEval (malloc : Bool) (tokens : List Int32) : Option (List Int32) :=
  if tokens=[] ∨ malloc=false then none else some tokens

def llmSample (stored : List Int32) : Int32 :=
  match stored.getLast? with
  | some token => token+1
  | none => 65

/-- The window of llm_generate. -/
def pushToken (tokens : List Int32) (token : Int32) : List Int32 :=
  if tokens.length < 512 then tokens++[token] else tokens.tail++[token]

/-- The loop of llm_generate: what it puts out behind `output`. -/
def generateLoop (mallocs : Nat → Bool) (outputSize : Nat) :
    (turns : Nat) → (i : Nat) → (tokens : List Int32) → (output : List UInt8) →
    Option (List UInt8)
  | 0,_,_,output => some output
  | turns+1,i,tokens,output =>
    if output.length+1 < outputSize then
      match llmEval (mallocs i) tokens with
      | none => none
      | some stored =>
        let token := llmSample stored
        generateLoop mallocs outputSize turns (i+1) (pushToken tokens token)
          (output++[charOf token])
    else some output

/-- llm_generate: the bytes in front of the NUL, as many as it returns; `none` is -1. -/
def llmGenerate (mallocs : Nat → Bool) (prompt : List UInt8) (maxTokens : Int32)
    (outputSize : Nat) : Option (List UInt8) :=
  if maxTokens≤0 then none
  else generateLoop mallocs outputSize maxTokens.toInt.toNat 0 (llmTokenize prompt 512) []

/-- The text of a generation, or of the failure that a return value of 0 or less means. -/
def generatedText (mallocs : Nat → Bool) (prompt : List UInt8) (maxTokens : Int32) :
    List UInt8 :=
  match llmGenerate mallocs prompt (if maxTokens>0 then maxTokens else 16) maxPromptLength with
  | none => cstr " [generation failed]"
  | some text => if text=[] then cstr " [generation failed]" else text

/-- The start of embedded_model_bytes. -/
def embeddedModelBytes : List UInt8 := cstr "GGUF"

structure ModelMetadata where
  magic : Fin 4 → UInt8
  version : UInt32
  tensorCount : UInt32
  kvCount : UInt32
  architecture : CField 32
  contextLength : UInt32

theorem architecture_fits : (cstr "llama").length < 32 := by decide

def cGetModelMetadata : ModelMetadata where
  magic i := embeddedModelBytes.getD i.1 0
  version := 3
  tensorCount := 0
  kvCount := 0
  architecture := ⟨cstr "llama",architecture_fits⟩
  contextLength := 2048

end Cllm.Api
