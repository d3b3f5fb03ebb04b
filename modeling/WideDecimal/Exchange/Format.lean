import WideDecimal.Exchange.Value

namespace WideDecimal.Exchange

/-- A text format. Texts and lists of texts are written as documents; a document, or every element
of the list that it holds, is read by a visit of the value in it. -/
structure Format where
  Failure : Type
  writeText (s : String) : String
  writeTexts (texts : List String) : String
  read {α : Type} (visit : Value → Except Refusal α) (document : String) : Except Failure α
  readList {α : Type} (visit : Value → Except Refusal α) (document : String) :
    Except Failure (List α)

end WideDecimal.Exchange
