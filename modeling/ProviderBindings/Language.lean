import ProviderBindings.Text.Blank
import ProviderBindings.Text.Letters

/-!
# Target languages

The languages bindings can be asked for. TypeScript is the primary one: it is written directly, and it
is the form that every other language is compiled from.
-/

namespace ProviderBindings

/-- A language to generate bindings in. -/
inductive Language where
  | typescript
  | python
  | dotnet
  | java
  deriving DecidableEq, Repr

namespace Language

/-- The name of a language. -/
def name : Language → String
  | typescript => "typescript"
  | python => "python"
  | dotnet => "dotnet"
  | java => "java"

/-- Every language, in listing order. -/
def all : List Language :=
  [typescript, python, dotnet, java]

/-- Whether code in this language is saved as it is, without compilation. -/
def isPrimary : Language → Bool
  | typescript => true
  | _ => false

/-- The languages that can be produced. -/
def producible : List Language :=
  [typescript, python]

/-- The language with a name, in any case and with blanks around it. -/
def ofName? (s : String) : Option Language :=
  all.find? fun l => l.name == Text.lower (Text.strip s)

end Language

end ProviderBindings
