import Pipelines.Text.Blank

namespace Pipelines

structure Config where
  /-- The name whose calls are pipelines. -/
  invocation : String := "@chain"
  /-- What every synthesised name begins with. -/
  stem : String := "__chain_"
deriving DecidableEq

namespace Config

/-- What a variable of the environment says, if anything: its text without blanks around it. A
value that is not UTF-8, or that is blank, says nothing. -/
def setting? (value : Option ByteArray) : Option String := do
  let text ← String.fromUTF8? (← value)
  let trimmed := Text.trim text
  if trimmed.isEmpty then none else some trimmed

def invocationVariable : String := "CHAIN_INVOCATION"

def stemVariable : String := "CHAIN_TEMP_PREFIX"

/-- The settings in an environment, given by the value of each of its variables. -/
def ofEnvironment (value? : String → Option ByteArray) : Config :=
  let defaults : Config := {}
  { invocation := (setting? (value? invocationVariable)).getD defaults.invocation
    stem := (setting? (value? stemVariable)).getD defaults.stem }

/-- The settings with those replaced that a caller asks for, which are taken as they are. -/
def override (config : Config) (invocation? stem? : Option String) : Config :=
  { invocation := invocation?.getD config.invocation
    stem := stem?.getD config.stem }

end Config

end Pipelines
