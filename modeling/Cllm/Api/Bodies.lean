import Cllm.Api.Handlers

namespace Cllm.Api

open Libc Json Http Rfc8259

/-- The body in the length that the response gives. -/
def bodyText (response : HttpResponse) : List UInt8 :=
  response.body.bytes.take response.bodyLength

/-- The calls of a handler put out a value that is shorter than the body. -/
theorem bodyText_writeBody (response : HttpResponse) {calls : List (Call httpResponseBodySize)}
    (item : Item httpResponseBodySize)
    (hcalls : ∀ w,(all calls w).1=(item.call w).1)
    (hlen : item.value.texts.flatten.length < httpResponseBodySize) :
    bodyText (writeBody response calls)=item.value.texts.flatten := by
  have happ := item.writes (jsonWriterInit response.body)
  have hcomma : comma (jsonWriterInit response.body).needsComma=[] := rfl
  rw [hcomma,List.nil_append] at happ
  have hoffset : (jsonWriterInit response.body).offset=0 := rfl
  have hok := happ.fits (by rw [hoffset]; omega)
  have htext := happ.text hok
  change (all calls (jsonWriterInit response.body)).1.text=_
  rw [hcalls,htext]
  rfl

/-- The names of the members that the handlers write. -/
theorem tokens_plain : ∀ c∈cstr "tokens",32≤c ∧ c≠34 ∧ c≠92 := by decide +kernel

theorem content_plain : ∀ c∈cstr "content",32≤c ∧ c≠34 ∧ c≠92 := by decide +kernel

abbrev tokensKey : Name := ⟨cstr "tokens",tokens_plain⟩

abbrev contentKey : Name := ⟨cstr "content",content_plain⟩

variable {size : Nat}

def tokensItem (tokens : List Int32) : Item size :=
  .object [.pair tokensKey (.packed (tokens.map .int))]

theorem tokenizeCalls_item (tokens : List Int32) (w : Writer httpResponseBodySize) :
    (all (tokenizeCalls tokens) w).1=((tokensItem tokens).call w).1 := by
  have hints : (jsonWriteIntArray tokens : Call httpResponseBodySize)=
      attempt (jsonWriteArrayStart::((tokens.map Item.int).map Item.call++[jsonWriteArrayEnd])) := by
    rw [jsonWriteIntArray,List.map_map]
    rfl
  rw [tokenizeCalls,hints]
  rfl

def contentItem (text : List UInt8) : Item size := .object [.kv contentKey (.string text)]

theorem detokenizeCalls_item (text : List UInt8) (w : Writer httpResponseBodySize) :
    (all (detokenizeCalls text) w).1=((contentItem text).call w).1 := rfl

end Cllm.Api
