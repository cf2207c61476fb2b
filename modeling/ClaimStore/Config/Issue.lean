import ClaimStore.Text.Quoted
/-!
# Configuration issues

Every reason for refusing a configuration, with the sentence that reports it. A text that the
user wrote is shown quoted.
-/

namespace ClaimStore.Config

open ClaimStore.Text

/-- Why a configuration, or one of its settings, is refused. -/
inductive Issue where
  | badPercentage (text : String)
  | unreadablePercentage (text : String)
  | badDuration (text : String)
  | durationUnit (text unit : String)
  | badDataSize (text : String)
  | dataSizeUnit (text unit : String)
  | noContainers
  | blankContainerName
  | emptyContainerPath (name : String)
  | zeroSections
  | zeroPooledClaims
  | zeroReclaimQueue
  | zeroArchivePercentage
  | zeroDestructionInterval
  | zeroCapacity (name root : String)
  | unreadable (path reason : String)
  deriving DecidableEq, Repr

/-- The sentence that reports an issue. -/
def Issue.message : Issue → String
  | .badPercentage t => "invalid percentage " ++ quote t ++ ": expected format <XX>%"
  | .unreadablePercentage t => "invalid percentage " ++ quote t
  | .badDuration t => "invalid duration " ++ quote t
  | .durationUnit t u => "invalid duration " ++ quote t ++ ": unknown unit " ++ quote u
  | .badDataSize t => "invalid data size " ++ quote t
  | .dataSizeUnit t u => "invalid data size " ++ quote t ++ ": unknown unit " ++ quote u
  | .noContainers => "at least one container is required"
  | .blankContainerName => "container names must be non-empty"
  | .emptyContainerPath n => "container " ++ n ++ " has an empty path"
  | .zeroSections => "sections_per_container must be at least 1"
  | .zeroPooledClaims => "max_pooled_claims must be at least 1"
  | .zeroReclaimQueue => "reclaim_queue_capacity must be at least 1"
  | .zeroArchivePercentage =>
    "archive_max_usage_percentage must be greater than 0% when archiving is enabled"
  | .zeroDestructionInterval => "destruction_interval must be non-zero"
  | .zeroCapacity n r => "container " ++ n ++ " at " ++ r ++ " reports zero capacity"
  | .unreadable p r => "cannot read " ++ p ++ ": " ++ r

end ClaimStore.Config
