import AccountLint.Text.Blank

/-! The categories of findings. -/
namespace AccountLint

/-- What a rule looks for. -/
inductive Category where
  | missingOwnerCheck
  | missingSignerCheck
  | arbitraryCpi
  | insecureAccountClose
  | typeCosplay
  | bumpSeedCanonicalization
  | sysvarGet
  | sysvarAddressCheck
  | improperInstructionIntrospection
  | duplicateMutableAccounts
deriving DecidableEq, Inhabited

namespace Category

def all : List Category :=
  [.missingOwnerCheck, .missingSignerCheck, .arbitraryCpi, .insecureAccountClose, .typeCosplay,
   .bumpSeedCanonicalization, .sysvarGet, .sysvarAddressCheck, .improperInstructionIntrospection,
   .duplicateMutableAccounts]

def id : Category → String
  | .missingOwnerCheck => "missing-owner-check"
  | .missingSignerCheck => "missing-signer-check"
  | .arbitraryCpi => "arbitrary-cpi"
  | .insecureAccountClose => "insecure-account-close"
  | .typeCosplay => "type-cosplay"
  | .bumpSeedCanonicalization => "bump-seed-canonicalization"
  | .sysvarGet => "sysvar-get"
  | .sysvarAddressCheck => "sysvar-address-check"
  | .improperInstructionIntrospection => "improper-instruction-introspection"
  | .duplicateMutableAccounts => "duplicate-mutable-accounts"

/-- A small letter for a capital one. The Kelvin sign is the one character outside ASCII whose small
letter is in it. -/
def smallLetter (c : Char) : Char := if c.toNat == 0x212a then 'k' else c.toLower

/-- A spelling of an identifier as it is compared: without blanks around it, in small letters, and
with hyphens for underscores. -/
def normal (text : String) : String :=
  String.ofList ((Text.trim Text.isBlank text.toList).map fun c =>
    if c == '_' then '-' else smallLetter c)

def ofText? (text : String) : Option Category := all.find? fun c => c.id == normal text

theorem mem_all (c : Category) : c ∈ all := by cases c <;> decide

end Category
end AccountLint
