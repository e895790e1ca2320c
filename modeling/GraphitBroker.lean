import GraphitBroker.Proof.DriverEquivalence
import GraphitBroker.Proof.Linearizability
import GraphitBroker.Proof.RealtimeReplay
import GraphitBroker.Proof.LocalResidency
import GraphitBroker.Proof.ExecutorSafety
import GraphitBroker.Proof.GrantRepair
import GraphitBroker.Proof.PolicyEngines
import GraphitBroker.Proof.Templates
import GraphitBroker.Proof.PendingRequests
import GraphitBroker.Proof.SessionTokens
import GraphitBroker.Proof.InventoryPages
import GraphitBroker.Proof.SnapshotOrder
import GraphitBroker.Proof.FlowConsumption
import GraphitBroker.Proof.RegistrationRuns
import GraphitBroker.Proof.RerankRuns
import GraphitBroker.Proof.DigestedUploads
import GraphitBroker.Proof.PasswordLockouts
import GraphitBroker.Proof.MfaLockouts
import GraphitBroker.Proof.PartPages
import GraphitBroker.Proof.EmbeddingBatches
import GraphitBroker.Proof.DeviceRows
import GraphitBroker.Proof.LoginStages
