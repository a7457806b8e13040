import Cllm.Json.Spelling

namespace Cllm.Json

open Libc Rfc8259

/-- What may stand behind a value: a blank, a comma, a closing bracket or brace, or the end. -/
def Follows (rest : List UInt8) : Prop := ∀ c∈rest.head?,Blank c ∨ c=44 ∨ c=93 ∨ c=125

theorem Follows.delimited {rest : List UInt8} (h : Follows rest) : Delimited rest := by
  intro c hc
  rcases h c hc with (rfl | rfl | rfl | rfl) | rfl | rfl | rfl <;> decide

variable {δ φ : Type} [Double δ φ]

/-- The parser has read what is in front of `s` on the input of `r`, and after it the first token
of `s`. -/
def ReadUpTo (r p : Parser δ) (s : List UInt8) : Prop :=
  ∃ before : Parser δ,before.input=r.input ∧ before.len=r.len ∧ before.Within ∧
    before.rest=s ∧ p=jsonNextToken before

theorem steady_readUpTo (r : Parser δ) : Steady (ReadUpTo r) where
  sees h := by
    obtain ⟨before,-,-,hw,rfl,rfl⟩ := h
    exact jsonNextToken_sees hw
  next h hc := by
    obtain ⟨before,hinput,hlen,hw,rfl,rfl⟩ := h
    have hsees := jsonNextToken_sees hw
    have hsource := jsonNextToken_source before
    refine ⟨jsonNextToken before,hsource.1.trans hinput,hsource.2.trans hlen,hsees.within,?_,rfl⟩
    exact hsees.rest (by rw [hsees.current]; exact hc)

/-- Behind the first token of a value json_skip_value reads the rest of its text, and the token
that follows. -/
theorem jsonSkipValue_skips {r : Parser δ} (hw : r.Within) {v : Value} {text rest : List UInt8}
    (hrest : r.rest=text++rest) (hs : Spaced v.texts (text++rest) rest) (hfollows : Follows rest)
    {fuel : Nat} (hf : 2*(text++rest).length+1 ≤ fuel) :
    ∃ after : Parser δ,after.input=r.input ∧ after.len=r.len ∧ after.pos=r.pos+text.length ∧
      after.rest=rest ∧ jsonSkipValue fuel (jsonNextToken r)=.ok (jsonNextToken after) ∧
      Sees (jsonNextToken after) rest := by
  have hlenient := Value.lenient v hs hfollows.delimited
  have hstart : ReadUpTo r (jsonNextToken r) (text++rest) := ⟨r,rfl,rfl,hw,hrest,rfl⟩
  obtain ⟨q,hq,after,hinput,hlen,hwithin,hafter,rfl⟩ :=
    skipPart_keeps (steady_readUpTo r) hlenient hstart hf
  have hpos : after.pos=r.pos+text.length := by
    have hleft := Parser.length_suffix (i := after.pos) hwithin.len
    have hall := Parser.length_suffix (i := r.pos) hw.len
    change after.rest.length=_ at hleft
    change r.rest.length=_ at hall
    rw [hafter,hlen] at hleft
    rw [hrest,List.length_append] at hall
    have hbound := hwithin.pos
    have hbound' := hw.pos
    omega
  refine ⟨after,hinput,hlen,hpos,hafter,hq,?_⟩
  rw [← hafter]
  exact jsonNextToken_sees hwithin

theorem skips_nested :
    let r : Parser Float := .init (cstr "[\x7b\"\\u0000\":-1.0\x7d,null] ,7") 25
    ∃ after : Parser Float,after.pos=22 ∧ after.rest=cstr " ,7" ∧
      jsonSkipValue 51 (jsonNextToken r)=.ok (jsonNextToken after) := by
  let zero : {c : UInt8 // HexDigit c} := ⟨48,by decide⟩
  let one : Numeral :=
    ⟨true,⟨[49],List.cons_ne_nil _ _,List.forall_mem_singleton.mpr (by decide)⟩,by decide,
      some ⟨[48],List.cons_ne_nil _ _,List.forall_mem_singleton.mpr (by decide)⟩,none⟩
  let v : Value := .array (.cons
    (.object (.cons [.unicode fun _ => zero] (.number one) .nil)) (.cons .null .nil))
  intro r
  have hw : r.Within := ⟨Nat.zero_le _,by decide⟩
  have htext : v.texts.flatten=cstr "[\x7b\"\\u0000\":-1.0\x7d,null]" := by decide
  have hspaced := spaced_flatten v.texts (cstr " ,7")
  rw [htext] at hspaced
  have hfollows : Follows (cstr " ,7") := by
    intro c hc
    obtain rfl : (32 : UInt8)=c := Option.some.inj hc
    exact .inl (.inl rfl)
  have hfuel : 2*(cstr "[\x7b\"\\u0000\":-1.0\x7d,null]"++cstr " ,7").length+1 ≤ 51 := by decide
  obtain ⟨after,-,-,hpos,hrest,hskip,-⟩ :=
    jsonSkipValue_skips hw (by rfl) hspaced hfollows hfuel
  exact ⟨after,hpos,hrest,hskip⟩

end Cllm.Json
