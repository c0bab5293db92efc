import Custodia.Interaction
import Custodia.Interleaving
import Custodia.SeparatedNames
import Custodia.OrderedDicts
import Custodia.Doubles
import Custodia.PosixPath
import Custodia.Unquote
import Custodia.PyValues
import Custodia.SqliteStore
import Custodia.Messages
import Custodia.SecretsConsumer
import Custodia.SecretsCalls
import Custodia.SecretsRequests
import Custodia.Verdicts
import Custodia.Pipeline
import Custodia.Authorizers
import Custodia.IsolationProofs
import Custodia.SecretsRuns
import Custodia.ContainerTree
import Custodia.StoreTree
import Custodia.ContainerTreeProofs
import Custodia.ReadBackProofs
import Custodia.SecretsEffects
import Custodia.FailureProofs
import Custodia.AuditProofs
import Custodia.EncryptedStores
import Custodia.WriteOnceProofs
import Custodia.ContainerKeys
import Custodia.ContainerRace
import Custodia.DestroyRaceProofs
import Custodia.ExistsProofs
import Custodia.MappedValues
import Custodia.StoreViews
import Custodia.TransparencyProofs
import Custodia.PinningProofs
import Custodia.MigrationProofs
import Custodia.KemProofs
import Custodia.JsonCodes
import Custodia.KemClient
import Custodia.KemRoundTrip
import Custodia.NameProofs
import Custodia.AuthKeysProofs
import Custodia.Forwarding
import Custodia.ForwardLoopProofs
import Custodia.ForwardPathProofs
import Custodia.ForwardBodyProofs
import Custodia.PathAncestors
import Custodia.PathAuthzProofs
import Custodia.ListingProofs
import Custodia.FrameProofs
import Custodia.ContainerCreation
import Custodia.Replacement
import Custodia.FaultyService
import Custodia.IpaVault
import Custodia.VaultNameProofs
import Custodia.VaultWriteProofs
import Custodia.IpaCertRequest
import Custodia.DeleteProofs
import Custodia.CertRuns
import Custodia.CertProofs
import Custodia.VaultListProofs
import Custodia.CertListProofs
import Custodia.SubConsumers
import Custodia.MigratedReads
import Custodia.RawSecretsProofs
import Custodia.QuotedText
import Custodia.RequestShapes
import Custodia.AuditTextProofs
import Custodia.MessageTexts
import Custodia.StatusLineProofs
import Custodia.Stages
import Custodia.StoreAttachment
import Custodia.AttachmentProofs
import Custodia.Machines
import Custodia.Namespace
import Custodia.NamespaceProofs
import Custodia.NoninterferenceProofs
import Custodia.Serializability
import Custodia.SerialProofs
import Custodia.LinearizabilityProofs
import Custodia.SimpleClient
import Custodia.SimpleClientProofs
import Custodia.ServiceAudit
import Custodia.ServiceAuditProofs
import Custodia.PercentQuoting
import Custodia.ConfigParser
import Custodia.Configuration
import Custodia.ConfigurationProofs
import Custodia.SocketProofs
import Custodia.PluginOptions
import Custodia.PluginLoading
import Custodia.PluginOptionsProofs
import Custodia.PluginLoadingProofs
import Custodia.StartupProofs
import Custodia.ProgramResults
import Custodia.Relays
import Custodia.StatusCodes
import Custodia.RelayProofs
