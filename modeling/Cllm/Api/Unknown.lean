import Cllm.Api.Meaning

namespace Cllm.Api

open Libc Json Rfc8259

variable {δ φ R : Type} [Double δ φ] {room : R → Nat}

/-- Two bodies of which a parser makes the same request. -/
def Agree (parse : (body : List UInt8) → (len : Nat) → Except Fault R) (body body' : List UInt8) :
    Prop := ∃ req,parse body body.length=.ok req ∧ parse body' body'.length=.ok req

/-- Without the members that a parser does not know, a body means the same. -/
theorem agree_known {fields : List (Field δ room)} (hfit : Fitting fields 64) {init : R}
    {ms : Members} {body body' : List UInt8} (hb : Spells (.object ms) body)
    (hb' : Spells (.object (known fields ms)) body') (ht : Typed fields ms)
    (he : entries fields ms ≤ room init) :
    Agree (parseRequest (fields.map fun f => (f.name,f.handler)) init) body body' := by
  obtain ⟨ht',he',hm⟩ := known_same ms ht
  refine ⟨meaning fields ms init,parseRequest_runs hfit hb ht he,?_⟩
  rw [← hm]
  exact parseRequest_runs hfit hb' ht' (he'.trans_le he)

/-- Each request parser takes every object whose members, where it knows them, have the values that
it expects and that the request has room for, and makes of it what it makes of the object without
the members that it does not know. -/
theorem unknown_ignored {δ φ : Type} [Double δ φ] {ms : Members} {body body' : List UInt8}
    (hb : Spells (.object ms) body) :
    (Typed (completionFields δ φ) ms → Spells (.object (known (completionFields δ φ) ms)) body' →
      Agree (parseCompletionRequest (φ := φ) δ) body body') ∧
    (Typed (chatFields δ φ) ms → entries (chatFields δ φ) ms ≤ maxChatMessages →
      Spells (.object (known (chatFields δ φ) ms)) body' →
      Agree (parseChatRequest (φ := φ) δ) body body') ∧
    (Typed (tokenizeFields δ φ) ms → Spells (.object (known (tokenizeFields δ φ) ms)) body' →
      Agree (parseTokenizeRequest δ) body body') ∧
    (Typed (detokenizeFields δ φ) ms → entries (detokenizeFields δ φ) ms ≤ maxTokens →
      Spells (.object (known (detokenizeFields δ φ) ms)) body' →
      Agree (parseDetokenizeRequest δ) body body') ∧
    (Typed (embeddingFields δ φ) ms → Spells (.object (known (embeddingFields δ φ) ms)) body' →
      Agree (parseEmbeddingRequest δ) body body') := by
  refine ⟨fun ht hb' => ?_,fun ht he hb' => ?_,fun ht hb' => ?_,fun ht he hb' => ?_,
    fun ht hb' => ?_⟩
  · exact agree_known (completion_fitting δ φ) hb hb' ht (entries_eq_zero rfl ms).le
  · exact agree_known (chat_fitting δ φ) hb hb' ht he
  · exact agree_known (tokenize_fitting δ φ) hb hb' ht (entries_eq_zero rfl ms).le
  · exact agree_known (detokenize_fitting δ φ) hb hb' ht he
  · exact agree_known (embedding_fitting δ φ) hb hb' ht (entries_eq_zero rfl ms).le

theorem typed_cons {fields : List (Field δ room)} {name : Literal} {v : Value} {ms : Members}
    (f : Option (Field δ room)) (h : recognised fields name=f) (ha : ∀ g∈f,g.admits v)
    (hm : Typed fields ms) : Typed fields (.cons name v ms) := by
  subst h
  exact ⟨ha,hm⟩

def messagesName : Literal := .plain (cstr "messages") (by decide +kernel)

/-- A member that chat requests do not have, and a message with another. -/
def strayChat : Members :=
  .cons (.plain (cstr "x") (by decide +kernel)) (.array (.cons .null .nil))
    (.cons messagesName
      (.array (.cons (.object (.cons (.plain (cstr "y") (by decide +kernel)) (.bool true)
        (.cons (.plain (cstr "role") (by decide +kernel))
          (.string (.plain (cstr "user") (by decide +kernel))) .nil))) .nil)) .nil)

theorem strayChat_typed : Typed (chatFields Float Float32) strayChat := by
  refine typed_cons none rfl (fun g hg => (by cases hg)) (typed_cons _ rfl ?_ trivial)
  intro g hg
  injection hg with hg
  subst hg
  refine ⟨_,rfl,?_⟩
  intro v hv
  obtain rfl := List.mem_singleton.mp hv
  refine ⟨_,rfl,typed_cons none rfl (fun g hg => (by cases hg)) (typed_cons _ rfl ?_ trivial)⟩
  intro g hg
  injection hg with hg
  subst hg
  rfl

theorem unknown_ignored_stray :
    Agree (parseChatRequest (φ := Float32) Float)
      (cstr "\x7b\"x\":[null],\"messages\":[\x7b\"y\":true,\"role\":\"user\"\x7d]\x7d")
      (cstr "\x7b\"messages\":[\x7b\"role\":\"user\"\x7d]\x7d") := by
  have hb := spells_flatten (.object strayChat)
  have hb' := spells_flatten (.object (known (chatFields Float Float32) strayChat))
  have hbody : (Value.object strayChat).texts.flatten=
      cstr "\x7b\"x\":[null],\"messages\":[\x7b\"y\":true,\"role\":\"user\"\x7d]\x7d" := by
    decide
  have hbody' : (Value.object (known (chatFields Float Float32) strayChat)).texts.flatten=
      cstr "\x7b\"messages\":[\x7b\"role\":\"user\"\x7d]\x7d" := by
    decide
  rw [hbody] at hb
  rw [hbody'] at hb'
  exact (unknown_ignored hb).2.1 strayChat_typed (by decide) hb'

end Cllm.Api
