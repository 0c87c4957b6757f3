import AccountLint.Checked
import AccountLint.Program.Behind
import AccountLint.ValueSet

/-! Well known paths, and what they tell about types. -/
namespace AccountLint

namespace Paths

def accountInfo := "solana_program::account_info::AccountInfo"
def instruction := "solana_program::instruction::Instruction"
def createProgramAddress := "solana_program::pubkey::Pubkey::create_program_address"
def sysvarTrait := "solana_program::sysvar::Sysvar"
def sysvarFromAccountInfo := "solana_program::sysvar::Sysvar::from_account_info"
def loadInstructionAtChecked :=
  "solana_program::sysvar::instructions::load_instruction_at_checked"
def bincodeDeserialize := "bincode::deserialize"
def account := "anchor_lang::accounts::account::Account"
def accountLoader := "anchor_lang::accounts::account_loader::AccountLoader"
def program := "anchor_lang::accounts::program::Program"
def interface := "anchor_lang::accounts::interface::Interface"
def systemAccount := "anchor_lang::accounts::system_account::SystemAccount"
def signer := "anchor_lang::accounts::signer::Signer"
def sysvar := "anchor_lang::accounts::sysvar::Sysvar"
def context := "anchor_lang::context::Context"
def cpiContextNew := "anchor_lang::context::CpiContext::new"
def cpiContextNewWithSigner := "anchor_lang::context::CpiContext::new_with_signer"
def accountDeserialize := "anchor_lang::AccountDeserialize"
def discriminator := "anchor_lang::Discriminator"
def accounts := "anchor_lang::Accounts"
def borshTryFromSlice := "borsh::de::BorshDeserialize::try_from_slice"
def borshDeserialize := "borsh::de::BorshDeserialize::deserialize"
def tryDeserializeUnchecked := "anchor_lang::AccountDeserialize::try_deserialize_unchecked"

def sysvarTypes : List String :=
  ["solana_program::clock::Clock", "solana_program::epoch_rewards::EpochRewards",
   "solana_program::epoch_schedule::EpochSchedule", "solana_program::fees::Fees",
   "solana_program::last_restart_slot::LastRestartSlot", "solana_program::rent::Rent",
   "solana_program::slot_hashes::SlotHashes", "solana_program::slot_history::SlotHistory",
   "solana_program::stake_history::StakeHistory",
   "solana_program::sysvar::instructions::Instructions"]

/-- The sysvars that can be read without an account. -/
def gettableSysvars : List String :=
  ["Clock", "EpochRewards", "EpochSchedule", "Fees", "LastRestartSlot", "Rent"]

/-- The sysvars whose accounts are passed needlessly. -/
def gettableSysvarAccounts : List String := ["Clock", "Rewards", "EpochSchedule", "Fees", "Rent"]

def comparisonCalls : List String :=
  ["core::cmp::PartialEq::eq", "core::cmp::PartialEq::ne", "anchor_lang::require_keys_eq",
   "anchor_lang::require_keys_neq", "anchor_lang::require_eq", "anchor_lang::require_neq",
   "core::assert_eq", "core::assert_ne"]

end Paths

namespace TypeFact

def validatesOwner := "validates-owner"
def validatesProgramId := "validates-program-id"
def signer := "signer"
def discriminant := "discriminant"
def accountsStruct := "accounts-struct"

/-- The facts that wrappers establish by their paths. -/
def impliedByPath : List (String × List String) :=
  [(Paths.account, [validatesOwner, discriminant]),
   (Paths.accountLoader, [validatesOwner, discriminant]),
   (Paths.program, [validatesOwner, validatesProgramId]),
   (Paths.interface, [validatesOwner, validatesProgramId]),
   (Paths.systemAccount, [validatesOwner]),
   (Paths.signer, [validatesOwner, signer]),
   (Paths.sysvar, [validatesOwner])]

/-- The facts that traits establish. -/
def impliedByTrait : List (String × String) :=
  [(Paths.discriminator, discriminant), (Paths.accounts, accountsStruct)]

end TypeFact

/-- A pattern and a name agree on their trailing segments. A name that is missing or empty agrees
with nothing, and any other has to be a text. -/
def pathMatches (pattern : String) : Option Name → Except Fault Bool
  | none => .ok false
  | some (.text s) => .ok (Text.nameMatches pattern s)
  | some n => if n.isTruthy then .error .notText else .ok false

def matchesAny (patterns : List String) (name : Option Name) : Except Fault Bool :=
  anyM (fun p => pathMatches p name) patterns

/-- Like `pathMatches`, but `Type::method` also agrees with the pattern of a trait's method. -/
def callMatches (pattern : String) : Option Name → Except Fault Bool
  | none => .ok false
  | some (.text s) => .ok (Text.methodMatches pattern s)
  | some n => if n.isTruthy then .error .notText else .ok false

/-- Whether a type has a fact: as an attribute, by its path or by a trait. -/
def TypeDecl.hasFact (t : TypeDecl) (fact : String) : Except Fault Bool := do
  if t.attributes.any (Value.same (.text fact)) then return true
  if ← anyM (fun (path, facts) =>
      if facts.contains fact then pathMatches path (some t.path) else .ok false)
      TypeFact.impliedByPath then return true
  anyM (fun (trait, implied) =>
    if implied == fact then anyM (fun tr => pathMatches trait (some tr)) t.traits else .ok false)
    TypeFact.impliedByTrait

def hasFact (t : Option TypeDecl) (fact : String) : Except Fault Bool :=
  match t with
  | none => .ok false
  | some t => t.hasFact fact

/-- Whether a type has a trait; the types of sysvars have theirs by their path. -/
def TypeDecl.hasTrait (t : TypeDecl) (trait : String) : Except Fault Bool := do
  if ← anyM (fun tr => pathMatches trait (some tr)) t.traits then return true
  if trait == Paths.sysvarTrait then t.path.isOneOf Paths.sysvarTypes else return false

end AccountLint
