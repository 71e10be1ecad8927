/-!
# Failure codes

Every failure of the library has a code: a number and a name for programs, a description for people.
The thousands of the number are the group of the code, and the group decides the exit status of the
command line.
-/

namespace TripleChain

/-- The parts of the work in which something can fail. -/
inductive FailureGroup where
  | parse
  | rule
  | plan
  | handler
  | validation
  | config
  | internal
  deriving DecidableEq, Inhabited

namespace FailureGroup

/-- The name of the group. -/
def name : FailureGroup → String
  | parse => "parse"
  | rule => "rule"
  | plan => "plan"
  | handler => "handler"
  | validation => "validation"
  | config => "config"
  | internal => "internal"

/-- The thousands of the numbers in the group. -/
def thousands : FailureGroup → Nat
  | parse => 1
  | rule => 2
  | plan => 3
  | handler => 4
  | validation => 5
  | config => 7
  | internal => 9

/-- The status with which the command line ends. -/
def exitStatus : FailureGroup → Nat
  | parse | validation => 2
  | rule | config => 3
  | plan | handler => 4
  | internal => 1

end FailureGroup

/-- What has failed. -/
inductive FailureCode where
  | parseError
  | invalidPattern
  | invalidBindingSet
  | invalidRuleFile
  | undefinedPrefix
  | unexpectedEof
  | ruleError
  | emptyRule
  | missingHandler
  | unknownRule
  | planError
  | notBackwardPlan
  | planNotFinished
  | planStalled
  | handlerError
  | missingVariable
  | invalidTable
  | validationError
  | emptyInput
  | invalidValue
  | invalidFormat
  | configError
  | configNotFound
  | invalidConfigSyntax
  | unknownProfile
  | invalidConfigValue
  | internalError
  | unexpectedState
  deriving DecidableEq, Inhabited

namespace FailureCode

/-- All codes by number. -/
def all : List FailureCode :=
  [parseError, invalidPattern, invalidBindingSet, invalidRuleFile, undefinedPrefix, unexpectedEof,
    ruleError, emptyRule, missingHandler, unknownRule,
    planError, notBackwardPlan, planNotFinished, planStalled,
    handlerError, missingVariable, invalidTable,
    validationError, emptyInput, invalidValue, invalidFormat,
    configError, configNotFound, invalidConfigSyntax, unknownProfile, invalidConfigValue,
    internalError, unexpectedState]

/-- The group of the code. -/
def group : FailureCode → FailureGroup
  | parseError | invalidPattern | invalidBindingSet | invalidRuleFile | undefinedPrefix | unexpectedEof => .parse
  | ruleError | emptyRule | missingHandler | unknownRule => .rule
  | planError | notBackwardPlan | planNotFinished | planStalled => .plan
  | handlerError | missingVariable | invalidTable => .handler
  | validationError | emptyInput | invalidValue | invalidFormat => .validation
  | configError | configNotFound | invalidConfigSyntax | unknownProfile | invalidConfigValue => .config
  | internalError | unexpectedState => .internal

/-- The place of the code in its group. -/
def rank : FailureCode → Nat
  | parseError | ruleError | planError | handlerError | validationError | configError | internalError => 0
  | invalidPattern | emptyRule | notBackwardPlan | missingVariable | emptyInput | configNotFound
  | unexpectedState => 1
  | invalidBindingSet | missingHandler | planNotFinished | invalidTable | invalidValue
  | invalidConfigSyntax => 2
  | invalidRuleFile | unknownRule | planStalled | invalidFormat | unknownProfile => 3
  | undefinedPrefix | invalidConfigValue => 4
  | unexpectedEof => 5

def number (c : FailureCode) : Nat := 1000 * c.group.thousands + c.rank

def exitStatus (c : FailureCode) : Nat := c.group.exitStatus

/-- The name of the code. -/
def name : FailureCode → String
  | parseError => "PARSE_ERROR"
  | invalidPattern => "INVALID_PATTERN"
  | invalidBindingSet => "INVALID_BINDING_SET"
  | invalidRuleFile => "INVALID_RULE_FILE"
  | undefinedPrefix => "UNDEFINED_PREFIX"
  | unexpectedEof => "UNEXPECTED_EOF"
  | ruleError => "RULE_ERROR"
  | emptyRule => "EMPTY_RULE"
  | missingHandler => "MISSING_HANDLER"
  | unknownRule => "UNKNOWN_RULE"
  | planError => "PLAN_ERROR"
  | notBackwardPlan => "NOT_BACKWARD_PLAN"
  | planNotFinished => "PLAN_NOT_FINISHED"
  | planStalled => "PLAN_STALLED"
  | handlerError => "HANDLER_ERROR"
  | missingVariable => "MISSING_VARIABLE"
  | invalidTable => "INVALID_TABLE"
  | validationError => "VALIDATION_ERROR"
  | emptyInput => "EMPTY_INPUT"
  | invalidValue => "INVALID_VALUE"
  | invalidFormat => "INVALID_FORMAT"
  | configError => "CONFIG_ERROR"
  | configNotFound => "CONFIG_NOT_FOUND"
  | invalidConfigSyntax => "INVALID_CONFIG_SYNTAX"
  | unknownProfile => "UNKNOWN_PROFILE"
  | invalidConfigValue => "INVALID_CONFIG_VALUE"
  | internalError => "INTERNAL_ERROR"
  | unexpectedState => "UNEXPECTED_STATE"

/-- A few words on the code. -/
def description : FailureCode → String
  | parseError => "Parse error"
  | invalidPattern => "Invalid graph pattern"
  | invalidBindingSet => "Invalid binding set"
  | invalidRuleFile => "Invalid rule file"
  | undefinedPrefix => "Undefined prefix"
  | unexpectedEof => "Unexpected end of input"
  | ruleError => "Rule error"
  | emptyRule => "Rule has no antecedent and no consequent"
  | missingHandler => "Missing binding set handler"
  | unknownRule => "Unknown rule"
  | planError => "Plan error"
  | notBackwardPlan => "Plan is not a backward plan"
  | planNotFinished => "Plan has not finished"
  | planStalled => "Plan stalled on a failed handler"
  | handlerError => "Handler error"
  | missingVariable => "Variable not available to handler"
  | invalidTable => "Invalid handler table"
  | validationError => "Validation error"
  | emptyInput => "Empty input"
  | invalidValue => "Invalid value"
  | invalidFormat => "Invalid format"
  | configError => "Configuration error"
  | configNotFound => "Configuration file not found"
  | invalidConfigSyntax => "Invalid configuration syntax"
  | unknownProfile => "Unknown profile"
  | invalidConfigValue => "Invalid configuration value"
  | internalError => "Internal error"
  | unexpectedState => "Unexpected state"

def ofName? (s : String) : Option FailureCode := all.find? (·.name == s)

/-- The thousands of a number are those of its group. -/
theorem number_div (c : FailureCode) : c.number / 1000 = c.group.thousands := by cases c <;> rfl

theorem ofName?_name (c : FailureCode) : ofName? c.name = some c := by cases c <;> decide +kernel

end FailureCode

end TripleChain
