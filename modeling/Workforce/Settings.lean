import Workforce.Config
import Workforce.Text.Blank

/-
  Settings of the whole host: the size of the shared pool and the compensation switch. The switch
  is read once. A configured value wins over the environment; without either, compensation is
  on.
-/

namespace Workforce

/-- The compensation variable of the environment. -/
inductive EnvValue where
  | unset
  /-- Set to bytes that are no text. -/
  | unreadable
  | text (value : String)
  deriving Repr, DecidableEq

namespace EnvValue

/-- Reads the bytes of a variable that is set. -/
def ofBytes (bytes : ByteArray) : EnvValue :=
  match String.fromUTF8? bytes with
  | some s => text s
  | none => unreadable

/-- A value switches compensation off when it is `0`, `false`, `off` or `no`, without regard to
blanks around it or to the case of ASCII letters. -/
def switchesOn (value : String) : Bool :=
  let word := (Text.Blank.trim value.toList).map Char.toLower
  !(["0", "false", "off", "no"].contains (String.ofList word))

/-- What the environment says about compensation. -/
def enables : EnvValue → Bool
  | text value => switchesOn value
  | unset => true
  | unreadable => true

end EnvValue

/-- The settings that all pools of a host share. -/
structure Settings where
  env : EnvValue
  /-- The last value given to the compensation switch. -/
  configured : Option Bool := none
  /-- The switch as the first reader found it. -/
  resolved : Option Bool := none
  /-- The last size given to the shared pool. -/
  sharedSize : Option Nat := none
  deriving Repr, DecidableEq

namespace Settings

def configureCompensation (s : Settings) (enabled : Bool) : Settings :=
  { s with configured := some enabled }

/-- Sizes below one count as one. -/
def configureSize (s : Settings) (n : Nat) : Settings :=
  { s with sharedSize := some (Nat.max 1 n) }

/-- The switch a first reader would find now. -/
def pendingSwitch (s : Settings) : Bool := s.configured.getD s.env.enables

/-- The compensation switch. -/
def compensationEnabled (s : Settings) : Bool := s.resolved.getD s.pendingSwitch

/-- Reads the switch, which settles it for good. -/
def readSwitch (s : Settings) : Bool × Settings :=
  (s.compensationEnabled, { s with resolved := some s.compensationEnabled })

/-- The settings a shared pool gets if it is created now. -/
def sharedConfig (s : Settings) : Config :=
  Config.ofCore (s.sharedSize.getD Config.fallbackCore)

theorem compensationEnabled_readSwitch (s : Settings) :
    s.readSwitch.2.compensationEnabled = s.compensationEnabled := rfl

theorem compensationEnabled_configure_of_read (s : Settings) (b : Bool) :
    (s.readSwitch.2.configureCompensation b).compensationEnabled = s.compensationEnabled := rfl

end Settings

end Workforce
