import Mapkeys.Config
import Mapkeys.FileTree
import Mapkeys.Options

/-!
# Outcomes of commands

What a command leaves behind: how it ends, what it prints, what it says on the side, and the files.
-/

namespace Mapkeys.Command

open Text

/-- Why a command breaks off. -/
inductive Fault where
  | file (error : FileError)
  | setup (error : SetupError)
  deriving Repr, DecidableEq

/-- What is said about a command that breaks off. -/
def Fault.message : Fault → Text
  | .file error => error.message
  | .setup error => error.message

/-- How a command ends: with a code, without one, or broken off. -/
inductive Ending where
  | exit (code : Nat)
  | done
  | broken (fault : Fault)
  deriving Repr, DecidableEq

/-- What a command leaves behind. -/
structure Outcome where
  ending : Ending
  printed : Text
  said : Text
  files : FileTree
  deriving Repr, DecidableEq

/-- What a command says about itself: its name, and how it is used, in short and in full. -/
structure Manual where
  command : Text
  usage : Text
  details : Text
  deriving Repr, DecidableEq

/-- The outcome of a command that is misused. -/
def Manual.refuse (manual : Manual) (files : FileTree) (misuse : Options.Misuse) : Outcome :=
  ⟨.exit 2, [],
    manual.usage ++ manual.command ++ ": error: ".toList ++ misuse.message ++ ['\n'], files⟩

/-- The outcome of a command that gets no settings from its arguments. -/
def Manual.stop (manual : Manual) (files : FileTree) : Options.Stop → Outcome
  | .help => ⟨.exit 0, manual.usage ++ manual.details, [], files⟩
  | .misuse misuse => manual.refuse files misuse

end Mapkeys.Command
