import GcodePrep.Diagnostic

set_option autoImplicit false

/-!
# Problems of a source

Everything a diagnostic can be about, with its severity, its category and its wording.
-/

namespace GcodePrep

inductive Problem where
  | notInHeader
  | unterminatedHeader
  | ifWithoutExpression
  | elseWithoutIf
  | endifWithoutIf
  | unterminatedIf
  | stopped (reason : String)
  | evalFailed (expr : String)
  | defineWithoutAssignment
  | defineFailed (assignment : String)
  | delayFailed (expr : String)
  | programWithoutName
  | nestedProgram
  | numberNotDefined (name : String)
  | numberNotInteger (name : String)
  | numberNotPositive (name : String)
  | overwritingProgram (name : String)
  | endprogramOutside
  | lineOutside
  | unterminatedProgram (name : String)
  | switchWithoutExpression
  | caseOutside
  | caseWithoutValue
  | defaultcaseOutside
  | secondDefaultcase
  | endcaseOutside
  | endswitchOutside
  | duplicateLabel (name : String)
  | unterminatedSwitch
  | notSubstituted (expr : String)
  | includeWithoutPath
  | includeTooDeep (path : String)
  | notReadable (path fault : String)
  | directoryNotMade (path fault : String)
  | notWritable (path fault : String)
  deriving DecidableEq, Repr

namespace Problem

def severity : Problem → Severity
  | notInHeader | evalFailed _ | overwritingProgram _ | duplicateLabel _ => .warning
  | _ => .error

def category : Problem → Category
  | notInHeader | unterminatedHeader => .directive
  | ifWithoutExpression | elseWithoutIf | endifWithoutIf | unterminatedIf => .conditional
  | stopped _ => .fatal
  | evalFailed _ | defineWithoutAssignment | defineFailed _ | delayFailed _ => .expression
  | programWithoutName | nestedProgram | numberNotDefined _ | numberNotInteger _
  | numberNotPositive _ | overwritingProgram _ | endprogramOutside | lineOutside
  | unterminatedProgram _ => .program
  | switchWithoutExpression | caseOutside | caseWithoutValue | defaultcaseOutside
  | secondDefaultcase | endcaseOutside | endswitchOutside | duplicateLabel _
  | unterminatedSwitch => .switch
  | notSubstituted _ => .substitution
  | includeWithoutPath | includeTooDeep _ => .inclusion
  | notReadable .. | directoryNotMade .. | notWritable .. => .io

def message : Problem → String
  | notInHeader => "not in header"
  | unterminatedHeader => "unterminated @header"
  | ifWithoutExpression => "@if requires an expression"
  | elseWithoutIf => "@else without @if"
  | endifWithoutIf => "@endif without @if"
  | unterminatedIf => "unterminated @if"
  | stopped reason => messageAbout "@error" (if reason.isEmpty then none else some reason)
  | evalFailed expr => messageAbout "@eval failed" (some expr)
  | defineWithoutAssignment => "@define requires NAME = value"
  | defineFailed assignment => messageAbout "@define failed" (some assignment)
  | delayFailed expr => messageAbout "@delay failed" (some expr)
  | programWithoutName => "@program requires a name"
  | nestedProgram => "programs cannot be nested"
  | numberNotDefined name => name ++ " not defined"
  | numberNotInteger name => name ++ " must be integer"
  | numberNotPositive name => name ++ " must be a positive integer"
  | overwritingProgram name => messageAbout "overwriting program" (some name)
  | endprogramOutside => "@endprogram outside of program"
  | lineOutside => "program line outside of program"
  | unterminatedProgram name => messageAbout "unterminated @program" (some name)
  | switchWithoutExpression => "@switch requires an expression"
  | caseOutside => "@case outside switch"
  | caseWithoutValue => "@case requires a value"
  | defaultcaseOutside => "@defaultcase outside switch"
  | secondDefaultcase => "switch already has @defaultcase"
  | endcaseOutside => "@endcase outside switch"
  | endswitchOutside => "@endswitch outside switch"
  | duplicateLabel name => messageAbout "duplicate switch label" (some name)
  | unterminatedSwitch => "unterminated @switch"
  | notSubstituted expr => expr ++ " undefined"
  | includeWithoutPath => "@include requires a path"
  | includeTooDeep path => messageAbout "include depth exceeded" (some path)
  | notReadable path fault => messageAbout "file read" (some (path ++ ": " ++ fault))
  | directoryNotMade path fault =>
    messageAbout "error creating output directory" (some (path ++ ": " ++ fault))
  | notWritable path fault => messageAbout "error writing file" (some (path ++ ": " ++ fault))

def atOrigin (p : Problem) (origin : Origin) : Diagnostic :=
  .atOrigin origin p.severity p.category p.message

def nowhere (p : Problem) : Diagnostic := .onLine 0 p.severity p.category p.message

end Problem

end GcodePrep
