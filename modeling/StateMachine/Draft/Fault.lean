/-
# Faults of a draft

What can be wrong with a drafted machine: no initial state is chosen, the chosen one is not
declared, or a transition targets a state that is not declared. Several faults are reported
together; a single one stands alone.
-/

namespace StateMachine

/-- Why a draft is not a machine. -/
inductive BuildError where
  | missingInitial
  | unknownInitial (name : String)
  | undeclaredTarget (source target : String)
  | multiple (faults : List BuildError)
  deriving Repr

namespace BuildError

/-- One fault stands alone, any other number is reported together. -/
def ofFaults : List BuildError → BuildError
  | [fault] => fault
  | faults => multiple faults

mutual

/-- The text shown for a fault. -/
def message : BuildError → String
  | missingInitial => "Initial state not specified. Call .initial(name) before .build()"
  | unknownInitial name => s!"Initial state '{name}' is not declared"
  | undeclaredTarget source target =>
    s!"Transition from '{source}' targets undeclared state '{target}'"
  | multiple faults =>
    s!"{faults.length} configuration faults: " ++ String.intercalate "; " (messages faults)

/-- The texts shown for several faults. -/
def messages : List BuildError → List String
  | [] => []
  | fault :: rest => message fault :: messages rest

end

mutual

/-- The single faults of an error, those inside of `multiple` taken out. -/
def faults : BuildError → List BuildError
  | multiple inner => allFaults inner
  | missingInitial => [missingInitial]
  | unknownInitial name => [unknownInitial name]
  | undeclaredTarget source target => [undeclaredTarget source target]

/-- The single faults of several errors. -/
def allFaults : List BuildError → List BuildError
  | [] => []
  | error :: rest => faults error ++ allFaults rest

end

/-- The single faults of several errors are those of each error in turn. -/
theorem allFaults_eq_flatMap (l : List BuildError) : allFaults l = l.flatMap faults := by
  induction l with
  | nil => rfl
  | cons e r ih => simp [allFaults, ih]

end BuildError
end StateMachine
