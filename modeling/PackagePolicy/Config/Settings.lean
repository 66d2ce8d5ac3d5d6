import PackagePolicy.Keyword.Acceptance
import PackagePolicy.License
import PackagePolicy.Toml.Document
import PackagePolicy.UseFlag

/-!
# Global settings

The settings of `make.conf`, a TOML document with at most four keys of interest, all of them strings.
-/

namespace PackagePolicy

structure Settings where
  arch : Option Text
  use : Text
  acceptKeywords : Text
  acceptLicense : Text
deriving DecidableEq, Repr

namespace Settings

def default : Settings := ⟨none, [], [], ['*']⟩

/-- The string of a key, if the key is there; a value of another type is an error. -/
def string? (entries : Toml.Entries) (key : String) : Except ConfigError (Option Text) :=
  match entries.lookup key.toList with
  | none => .ok none
  | some (.value (.text s)) => .ok (some s)
  | some _ => .error .malformedSettings

def parse (content : Text) : Except ConfigError Settings :=
  match Toml.parse? content with
  | none => .error .malformedSettings
  | some entries => do
    let arch ← string? entries "arch"
    let use ← string? entries "use"
    let acceptKeywords ← string? entries "accept_keywords"
    let acceptLicense ← string? entries "accept_license"
    return {
      arch
      use := use.getD default.use
      acceptKeywords := acceptKeywords.getD default.acceptKeywords
      acceptLicense := acceptLicense.getD default.acceptLicense
    }

def useRules (s : Settings) : UseRules := UseRules.none.applyText s.use

/-- The keywords that the settings accept on an architecture, whose stable keyword is accepted to
begin with. -/
def keywordRules (s : Settings) (arch : Text) : Except ConfigError KeywordRules :=
  match (KeywordRules.ofArch arch).applyText s.acceptKeywords with
  | (rules, none) => .ok rules
  | (_, some e) => .error e

def licenseRules (s : Settings) : LicenseRules := .ofText s.acceptLicense

end Settings
end PackagePolicy
