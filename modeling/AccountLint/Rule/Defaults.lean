import AccountLint.Rule.Basic
import AccountLint.Rule.Paths

/-! The rules that are there from the start. -/
namespace AccountLint.Rule

/-- Comparisons of keys, which tell about the accounts that the keys belong to. -/
def keyComparison : GuardPattern :=
  { kind := .comparison, strip := ["key"], calls := Paths.comparisonCalls }

/-- The constraints of a declaration that settle the owner of an account. -/
def ownerConstraints : List String :=
  ["owner", "address", "seeds", "bump", "signer", "init_if_needed", "executable"]

def missingOwnerCheck : Rule where
  category := .missingOwnerCheck
  errorId := "missingOwnerCheck"
  description := "AccountInfo used without validating its owner"
  sinks := [{ kind := .typedUse, targets := [Paths.accountInfo] }]
  guards := [{ kind := .fieldRead, names := ["owner"] }, keyComparison,
    { kind := .declaredConstraint, names := ownerConstraints }]
  exemptions := [{ kind := .wrapperConversion, fact := TypeFact.validatesOwner }]
  coverage := .presence
  message := "this Account struct is used but there is no check on its owner field"
  hint := "compare `{path}.owner` with the expected program id"
  cwe := 283

def missingSignerCheck : Rule where
  category := .missingSignerCheck
  errorId := "missingSignerCheck"
  description := "instruction handler never checks a signer"
  sinks := [{ kind := .contextFunction, targets := [Paths.context] }]
  guards := [{ kind := .fieldRead, names := ["is_signer"] },
    { kind := .signerMarker, names := ["signer"] }]
  coverage := .presence
  message := "this function lacks a use of `is_signer`"
  hint := "declare the authority as `Signer<'info>` or check `is_signer`"
  cwe := 862

def arbitraryCpi : Rule where
  category := .arbitraryCpi
  errorId := "arbitraryCpi"
  description := "cross-program invocation of an unchecked program id"
  sinks := [
    { kind := .constructField, targets := [Paths.instruction], field := "program_id" },
    { kind := .callArg, targets := [Paths.cpiContextNew, Paths.cpiContextNewWithSigner],
      argument := 0 }]
  guards := [keyComparison, { kind := .declaredConstraint, names := ["address"] }]
  exemptions := [{ kind := .wrapperConversion, fact := TypeFact.validatesProgramId }]
  coverage := .allPaths
  message := "program_id may not be checked"
  hint := "compare `{path}` with the expected program id before the invocation"
  severity := .error
  cwe := 829

def insecureAccountClose : Rule where
  category := .insecureAccountClose
  errorId := "insecureAccountClose"
  description := "account closed without clearing its data"
  sinks := [{ kind := .zeroAssign, field := "lamports" }]
  guards := [
    { kind := .dataClear, names := ["data"],
      calls := ["fill", "solana_program::program_memory::sol_memset"] }]
  exemptions := [{ kind := .closedAccountDiscriminator }]
  coverage := .presence
  message := "attempt to close an account without also clearing its data"
  hint := "zero `{path}.data` as well, or use anchor's `close` constraint"
  cwe := 459

def typeCosplay : Rule where
  category := .typeCosplay
  errorId := "typeCosplay"
  description := "deserialized account types cannot be told apart"
  sinks := [
    { kind := .deserialize,
      targets := [Paths.borshTryFromSlice, Paths.borshDeserialize, Paths.tryDeserializeUnchecked],
      fromAccountData := true }]
  coverage := .structural
  message := "`{type}` is deserialized from account data but has no discriminant"
  hint := "add a leading enum tag field, or use anchor's #[account] (Discriminator)"
  severity := .error
  cwe := 843

def bumpSeedCanonicalization : Rule where
  category := .bumpSeedCanonicalization
  errorId := "bumpSeedCanonicalization"
  description := "PDA derived from a bump seed that may not be canonical"
  sinks := [{ kind := .seedBump, targets := [Paths.createProgramAddress] }]
  guards := [{ kind := .comparison, calls := Paths.comparisonCalls }]
  coverage := .presence
  message := "Bump seed may not be constrained. If stored in an account, " ++
    "use anchor's #[account(seed=..., bump=...)] macro instead"
  hint := "derive the address with `Pubkey::find_program_address`"

def sysvarGet : Rule where
  category := .sysvarGet
  errorId := "sysvarGet"
  description := "sysvar read from an account instead of `get()`"
  sinks := [
    { kind := .typedCall, targets := [Paths.sysvarFromAccountInfo],
      types := Paths.gettableSysvars }]
  declaration := some
    { kind := .sysvarAccountFields,
      message := "Use `{sysvar}::get` instead of passing the account",
      hint := "Sysvar accounts passed in this instruction" }
  coverage := .unconditional
  message := "Use `{sysvar}::get()` instead of `{sysvar}::from_account_info(...)`"
  severity := .style

def sysvarAddressCheck : Rule where
  category := .sysvarAddressCheck
  errorId := "sysvarAddressCheck"
  description := "raw deserialization of a sysvar"
  sinks := [
    { kind := .deserialize, targets := [Paths.bincodeDeserialize], trait := Paths.sysvarTrait }]
  coverage := .unconditional
  message := "raw deserialization of a type that implements Sysvar"
  hint := "use from_account_info() instead"
  cwe := 345

def improperInstructionIntrospection : Rule where
  category := .improperInstructionIntrospection
  errorId := "improperInstructionIntrospection"
  description := "instruction sysvar accessed by absolute index"
  sinks := [{ kind := .call, targets := [Paths.loadInstructionAtChecked] }]
  coverage := .unconditional
  message := "Access instructions through relative indexes using the " ++
    "`get_instruction_relative` helper function."

def duplicateMutableAccounts : Rule where
  category := .duplicateMutableAccounts
  errorId := "duplicateMutableAccounts"
  description := "two mutable accounts of one type without a key check"
  sinks := [{ kind := .mutableBorrowPair, targets := [Paths.account] }]
  guards := [keyComparison, { kind := .distinctConstraint }]
  declaration := some
    { kind := .duplicateMutableFields,
      message := "{first} and {second} have identical account types but do " ++
        "not have a key check constraint",
      hint := "add an anchor key check constraint: " ++
        "#[account(constraint = {first}.key() != {second}.key())]" }
  coverage := .presence
  message := "the expressions on line {line} and {other_line} have identical " ++
    "Account types, yet do not contain a proper key check."
  hint := "add a key check to make sure the accounts have different keys, " ++
    "e.g., {first}.key() != {second}.key()"

def ofCategory : Category → Rule
  | .missingOwnerCheck => missingOwnerCheck
  | .missingSignerCheck => missingSignerCheck
  | .arbitraryCpi => arbitraryCpi
  | .insecureAccountClose => insecureAccountClose
  | .typeCosplay => typeCosplay
  | .bumpSeedCanonicalization => bumpSeedCanonicalization
  | .sysvarGet => sysvarGet
  | .sysvarAddressCheck => sysvarAddressCheck
  | .improperInstructionIntrospection => improperInstructionIntrospection
  | .duplicateMutableAccounts => duplicateMutableAccounts

/-- All rules, in the order of their categories. -/
def defaults : List Rule := Category.all.map ofCategory

/-- The rule of a category is of that category. -/
@[simp] theorem category_ofCategory (c : Category) : (ofCategory c).category = c := by
  cases c <;> rfl

end AccountLint.Rule
